import LocalTrans.Shell.Children

/-!
# The time stamps of a card

What `apply` keeps between the state of a card and its other fields: a card that is over has no
speed, has the time at which it ended and none at which it was cancelled, and nothing changes it; a
card is being cancelled while it has the time of the request; and the time of the start is written
once. `runs_keep` is the step lemma, one case for each edge of the table. The edge for `queueTimeout`
forgets the time of the end, and `stamps_kept_iff` says that this is the only one.
-/

namespace LocalTrans.Desktop

/-- The events that a pending card takes. -/
def leavesPending : CardEvent → Bool
  | .started | .queueTimeout | .failed _ | .cancelRequested => true
  | _ => false

namespace TransferCard

/-- The stamps and the bytes of a card go with its state. -/
structure StampsAgree (card : TransferCard) : Prop where
  stopped : IsTerminal card.dto.state →
    card.dto.speedBps = 0 ∧ card.dto.finishedAtMs ≠ none ∧ card.cancellingSinceMs = none
  cancelling : card.dto.state = "cancelling" ↔ card.cancellingSinceMs ≠ none
  full : card.dto.state = "done" → card.dto.done = card.dto.total

/-- An event changes no card that is over. The start is stamped when a pending card becomes active,
and then only. -/
structure StepAgrees (before after : TransferCard) : Prop where
  absorbed : IsTerminal before.dto.state → after = before
  started : after.dto.startedAtMs ≠ before.dto.startedAtMs →
    before.dto.startedAtMs = none ∧ before.dto.state = "pending" ∧ after.dto.state = "active"
  begins : before.dto.state = "pending" → after.dto.state = "active" →
    after.dto.startedAtMs ≠ none

/-- All states that a card goes through, and all steps between them, agree with the stamps. -/
def KeepsStamps : TransferCard → List (CardEvent × Int) → Prop
  | card, [] => StampsAgree card
  | card, (ev, nowMs) :: rest =>
    StampsAgree card ∧ StepAgrees card (card.apply ev nowMs).2 ∧
      KeepsStamps (card.apply ev nowMs).2 rest

/-- A card as it is created. -/
structure Fresh (card : TransferCard) : Prop where
  state : card.dto.state = "pending"
  speed : card.dto.speedBps = 0
  started : card.dto.startedAtMs = none
  finished : card.dto.finishedAtMs = none
  cancelling : card.cancellingSinceMs = none

variable {card : TransferCard} {ev : CardEvent} {nowMs : Int}
  {events rest : List (CardEvent × Int)}

theorem Fresh.stamps (h : Fresh card) : StampsAgree card where
  stopped hterminal := by
    rw [h.state] at hterminal
    exact absurd hterminal (by decide)
  cancelling := by simp [h.state, h.cancelling]
  full hdone := by
    rw [h.state] at hdone
    exact absurd hdone (by decide)

/-- An event that is refused keeps the card. -/
theorem StepAgrees.refl (h : card.dto.state = "pending" → card.dto.startedAtMs ≠ none ∨
    card.dto.state ≠ "active") : StepAgrees card card where
  absorbed _ := rfl
  started hne := absurd rfl hne
  begins hpending hactive := by
    rcases h hpending with hsome | hnot
    · exact hsome
    · exact absurd hactive hnot

/-- A pending card refuses what it does not take. -/
theorem pending_refuses (hstate : card.dto.state = "pending") (hev : leavesPending ev = false)
    (nowMs : Int) :
    card.apply ev nowMs = (false, card) := by
  have hpending : card.dto.state = asStr .pending := hstate
  rw [apply_eq hpending (by decide)]
  cases ev with
  | started | queueTimeout | failed _ | cancelRequested => cases hev
  | _ => rfl

/-- A card that is not pending keeps its stamps with every event, and does not become pending. -/
theorem runs_keep (h : StampsAgree card) (hstate : card.dto.state ≠ "pending") (ev : CardEvent)
    (nowMs : Int) :
    StepAgrees card (card.apply ev nowMs).2 ∧ StampsAgree (card.apply ev nowMs).2 ∧
      (card.apply ev nowMs).2.dto.state ≠ "pending" := by
  rcases apply_cases card ev nowMs with hrefused | ⟨state, found, next, hfrom, hedge, htaken⟩
  · rw [hrefused]
    exact ⟨.refl fun hpending => absurd hpending hstate, h, hstate⟩
  · rw [htaken]
    have hclosed : state = .done ∨ state = .failed ∨ state = .interrupted → False := by
      rintro (rfl | rfl | rfl)
      · cases hedge
      · cases hedge
      · cases hedge
    have hopen : ¬ IsTerminal card.dto.state := by
      rw [hfrom]
      cases state with
      | done | failed | interrupted => exact (hclosed (by simp)).elim
      | _ => decide
    have habsorbed : ∀ after : TransferCard, IsTerminal card.dto.state → after = card :=
      fun after hterminal => absurd hterminal hopen
    have hbegins : ∀ after : TransferCard, card.dto.state = "pending" →
        after.dto.state = "active" → after.dto.startedAtMs ≠ none :=
      fun after hpending => absurd hpending hstate
    have hstamp := h.cancelling
    cases state with
    | pending => exact absurd hfrom hstate
    | active =>
      have hnone : card.cancellingSinceMs = none := by
        rw [hfrom] at hstamp
        simpa [asStr] using hstamp
      cases ev with
      | progress done total speedBps remoteDone health =>
        obtain ⟨rfl, rfl⟩ := Prod.mk.inj (Option.some.inj hedge)
        refine ⟨⟨habsorbed _, fun hne => absurd rfl hne, hbegins _⟩, ⟨?_, ?_, ?_⟩, hstate⟩
        · exact fun hterminal => absurd hterminal hopen
        · exact hstamp
        · exact fun hdone => absurd (hfrom.symm.trans hdone) (by decide)
      | paused | cancelRequested | failed _ | finished | interrupted =>
        obtain ⟨rfl, rfl⟩ := Prod.mk.inj (Option.some.inj hedge)
        refine ⟨⟨habsorbed _, fun hne => absurd rfl hne, hbegins _⟩, ⟨?_, ?_, ?_⟩, ?_⟩
        all_goals simp [enter, asStr, recordFail, IsTerminal, hnone]
      | _ => cases hedge
    | paused =>
      have hnone : card.cancellingSinceMs = none := by
        rw [hfrom] at hstamp
        simpa [asStr] using hstamp
      cases ev with
      | resumed | cancelRequested | failed _ | finished | interrupted =>
        obtain ⟨rfl, rfl⟩ := Prod.mk.inj (Option.some.inj hedge)
        refine ⟨⟨habsorbed _, fun hne => absurd rfl hne, hbegins _⟩, ⟨?_, ?_, ?_⟩, ?_⟩
        all_goals simp [enter, asStr, recordFail, IsTerminal, hnone]
      | _ => cases hedge
    | cancelling =>
      cases ev with
      | cancelConfirmed =>
        obtain ⟨rfl, rfl⟩ := Prod.mk.inj (Option.some.inj hedge)
        exact ⟨.refl fun hpending => absurd hpending hstate, h, hstate⟩
      | failed _ | finished | interrupted =>
        obtain ⟨rfl, rfl⟩ := Prod.mk.inj (Option.some.inj hedge)
        refine ⟨⟨habsorbed _, fun hne => absurd rfl hne, hbegins _⟩, ⟨?_, ?_, ?_⟩, ?_⟩
        all_goals simp [enter, asStr, recordFail, IsTerminal]
      | _ => cases hedge
    | done | failed | interrupted => cases hedge

/-- A card that has left the pending state keeps its stamps. -/
theorem running_keeps (h : StampsAgree card) (hstate : card.dto.state ≠ "pending") :
    KeepsStamps card events := by
  induction events generalizing card with
  | nil => exact h
  | cons first rest ih =>
    obtain ⟨hstep, hnext, hleft⟩ := runs_keep h hstate first.1 first.2
    exact ⟨h, hstep, ih hnext hleft⟩

theorem KeepsStamps.head (h : KeepsStamps card events) : StampsAgree card := by
  cases events with
  | nil => exact h
  | cons first rest => exact h.1

/-- What a fresh card becomes when it leaves the pending state, unless its time in the queue is
over. -/
theorem leaves_keep (h : Fresh card) (hleaves : leavesPending ev = true) (hev : ev ≠ .queueTimeout)
    (nowMs : Int) :
    StepAgrees card (card.apply ev nowMs).2 ∧ StampsAgree (card.apply ev nowMs).2 ∧
      (card.apply ev nowMs).2.dto.state ≠ "pending" := by
  have hpending : card.dto.state = asStr .pending := h.state
  have hopen : ¬ IsTerminal card.dto.state := by
    rw [h.state]
    decide
  rw [apply_eq hpending (by decide)]
  cases ev with
  | started =>
    refine ⟨⟨fun hterminal => absurd hterminal hopen, fun _ => ⟨h.started, h.state, rfl⟩,
      fun _ _ => Option.some_ne_none _⟩, ⟨?_, ?_, ?_⟩, ?_⟩
    all_goals simp [edge, enter, asStr, IsTerminal, h.cancelling]
  | failed reason =>
    refine ⟨⟨fun hterminal => absurd hterminal hopen, fun hne => absurd rfl hne,
      fun _ hactive => absurd hactive (by simp [edge, enter, asStr])⟩, ⟨?_, ?_, ?_⟩, ?_⟩
    all_goals simp [edge, enter, asStr, recordFail, IsTerminal, h.cancelling]
  | cancelRequested =>
    refine ⟨⟨fun hterminal => absurd hterminal hopen, fun hne => absurd rfl hne,
      fun _ hactive => absurd hactive (by simp [edge, enter, asStr])⟩, ⟨?_, ?_, ?_⟩, ?_⟩
    all_goals simp [edge, enter, asStr, IsTerminal]
  | queueTimeout => exact absurd rfl hev
  | _ => cases hleaves

/-- The end of its time in the queue leaves a card failed without the time of its end. -/
theorem queue_timeout_forgets (h : Fresh card) (nowMs : Int) :
    (card.apply .queueTimeout nowMs).2.dto.state = "failed" ∧
      (card.apply .queueTimeout nowMs).2.dto.finishedAtMs = none := by
  have hpending : card.dto.state = asStr .pending := h.state
  rw [apply_eq hpending (by decide)]
  exact ⟨rfl, h.finished⟩

/-- A fresh card keeps its stamps if and only if the first event that it takes is not the end of its
time in the queue. -/
theorem stamps_kept_iff (h : Fresh card) :
    KeepsStamps card events ↔ ∀ nowMs,
      events.find? (fun input => leavesPending input.1) ≠ some (.queueTimeout, nowMs) := by
  induction events with
  | nil => simp [KeepsStamps, h.stamps]
  | cons first rest ih =>
    obtain ⟨ev, nowMs⟩ := first
    rw [List.find?_cons]
    by_cases hleaves : leavesPending ev = true
    · rw [hleaves]
      by_cases hev : ev = .queueTimeout
      · subst hev
        refine ⟨fun hkeeps => ?_, fun hnever => absurd rfl (hnever nowMs)⟩
        obtain ⟨hfailed, hforgot⟩ := queue_timeout_forgets h nowMs
        have hnext : StampsAgree (card.apply .queueTimeout nowMs).2 := hkeeps.2.2.head
        have hstopped := hnext.stopped (.inr (.inl hfailed))
        exact absurd hforgot hstopped.2.1
      · obtain ⟨hstep, hnext, hleft⟩ := leaves_keep h hleaves hev nowMs
        refine ⟨fun _ now heq => hev ?_, fun _ => ⟨h.stamps, hstep, running_keeps hnext hleft⟩⟩
        exact congrArg Prod.fst (Option.some.inj heq)
    · have hrefused := pending_refuses h.state (by simpa using hleaves) nowMs
      have hstays : StepAgrees card card := .refl fun _ => .inr (by rw [h.state]; decide)
      rw [Bool.eq_false_iff.mpr hleaves, KeepsStamps, hrefused]
      exact ⟨fun hkeeps => ih.mp hkeeps.2.2, fun hnever => ⟨h.stamps, hstays, ih.mpr hnever⟩⟩

theorem stamps_kept_sample :
    KeepsStamps (.new sampleRow) sampleEvents ↔ ∀ nowMs,
      sampleEvents.find? (fun input => leavesPending input.1) ≠ some (.queueTimeout, nowMs) :=
  stamps_kept_iff ⟨rfl, rfl, rfl, rfl, rfl⟩

/-- A card whose time in the queue is over has failed, and has no time at which it did. -/
theorem queue_timeout_unstamped :
    ¬ ∀ card events, Fresh card → KeepsStamps card events := by
  intro hall
  have hkeeps := hall (.new sampleRow) [(.queueTimeout, 60000)] ⟨rfl, rfl, rfl, rfl, rfl⟩
  have hstopped := hkeeps.2.2.stopped (by decide)
  exact hstopped.2.1 rfl

end TransferCard

end LocalTrans.Desktop
