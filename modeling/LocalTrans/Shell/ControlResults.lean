import LocalTrans.Shell.ControlReach

/-!
# What the controls of the desktop do in a run

`Obeyed` collects what holds after every step that keeps to `Routed`: the tables are tied, what is
held is held, and what was told to stop stops. `controls_reach` reads the result off it.
-/

namespace LocalTrans.Desktop

open Foundation

namespace ControlDesk

section Keeping

variable {except : Nat → Prop} {s next : ControlDesk} {c d h k : Nat} {task owner : EngineTask}
  {card : ControlCard} {f : ControlCard → ControlCard} {action : TaskControl}

theorem Tied.set_flags (hs : s.Tied) (flags : Nat → ControlFlags) : Tied { s with flags } :=
  ⟨hs.wired.set_flags flags, hs.heard, hs.attached, hs.distinct⟩

/-- Cards that keep their children, and do not open again. -/
theorem Tied.update_card (hs : s.Tied) (hwired : (s.updateCard c f).Wired)
    (hf : ∀ card, (f card).kind = card.kind ∧ (card.Ended → (f card).Ended) ∧
      (f card).children = card.children) : (s.updateCard c f).Tied := by
  have hback : ∀ (d : Nat) (after : ControlCard), (s.updateCard c f).cards[d]? = some after →
      ∃ before, s.cards[d]? = some before ∧ after.kind = before.kind ∧
        (before.Ended → after.Ended) ∧ after.children = before.children := by
    intro d after hafter
    obtain ⟨before, hbefore, rfl⟩ := card_of_update_card hafter
    refine ⟨before, hbefore, ?_⟩
    split
    · exact hf before
    · exact ⟨rfl, id, rfl⟩
  refine ⟨hwired, hs.heard, ?_, ?_⟩
  · intro h task d after htask hkind hlive hoffer hcard hafter
    obtain ⟨before, hbefore, hsame, hended, -⟩ := hback d after hafter
    have hattached := hs.attached h task d before htask hkind hlive hoffer hcard hbefore
    rw [hsame]
    split
    · next hbatch => rwa [if_pos hbatch] at hattached
    · next hsingle =>
      rw [if_neg hsingle] at hattached
      exact hattached.imp_right hended
  · intro d after hafter
    obtain ⟨before, hbefore, -, -, hchildren⟩ := hback d after hafter
    rw [hchildren]
    exact hs.distinct d before hbefore

/-- An action in the channel of a download. -/
theorem Tied.enqueue (hs : s.Tied) (hwired : (s.updateTask k (enqueue action)).Wired) :
    (s.updateTask k (enqueue action)).Tied := by
  have hback : ∀ (h : Nat) (after : EngineTask),
      (s.updateTask k (ControlDesk.enqueue action)).tasks[h]? = some after →
      ∃ before, s.tasks[h]? = some before ∧
        (after = before ∨ after = ControlDesk.enqueue action before) := by
    intro h after hafter
    obtain ⟨before, hbefore, rfl⟩ := task_of_update_task hafter
    refine ⟨before, hbefore, ?_⟩
    split
    · exact .inr rfl
    · exact .inl rfl
  refine ⟨hwired, ?_, ?_, hs.distinct⟩
  · intro job h after hchannel hafter
    obtain ⟨before, hbefore, rfl | rfl⟩ := hback h after hafter
    · exact hs.heard job h after hchannel hbefore
    · exact hs.heard job h before hchannel hbefore
  · intro h after d there hafter hkind hlive hoffer hcard hthere
    obtain ⟨before, hbefore, rfl | rfl⟩ := hback h after hafter
    · exact hs.attached h after d there hbefore hkind hlive hoffer hcard hthere
    · exact hs.attached h before d there hbefore hkind hlive hoffer hcard hthere

/-- A task is added, and the tables of the shell stay as they are. -/
structure Adds (s next : ControlDesk) (task : EngineTask) : Prop where
  tasks : next.tasks = s.tasks ++ [task]
  cards : next.cards = s.cards
  flags : ∀ k < s.tasks.length, next.flags k = s.flags k
  channels : next.taskControls = s.taskControls
  parents : next.pendingChildren = s.pendingChildren
  bound : next.engineToCard = s.engineToCard

theorem Adds.task_cases (hadds : Adds s next task) {after : EngineTask}
    (hafter : next.tasks[k]? = some after) :
    s.tasks[k]? = some after ∨ (k = s.tasks.length ∧ after = task) := by
  rw [hadds.tasks] at hafter
  exact concat_cases hafter

theorem Tied.adds (hs : s.Tied) (hwired : next.Wired) (hadds : Adds s next task)
    (hnew : task.kind = .source → task.live = false) : next.Tied := by
  refine ⟨hwired, ?_, ?_, ?_⟩
  · intro job h after hchannel hafter
    rw [hadds.channels] at hchannel
    rcases hadds.task_cases hafter with hold | ⟨rfl, -⟩
    · exact hs.heard job h after hchannel hold
    · -- a channel is that of a task which is there
      obtain ⟨found, hfound, -⟩ := hs.wired.channel job _ hchannel
      rw [List.getElem?_eq_none (Nat.le_refl _)] at hfound
      cases hfound
  · intro h after d there hafter hkind hlive hoffer hcard hthere
    rw [hadds.cards] at hthere
    rw [hadds.parents, hadds.bound]
    rcases hadds.task_cases hafter with hold | ⟨-, rfl⟩
    · exact hs.attached h after d there hold hkind hlive hoffer hcard hthere
    · rw [hnew hkind] at hlive
      cases hlive
  · intro d there hthere
    rw [hadds.cards] at hthere
    exact hs.distinct d there hthere

theorem Adds.elsewhere (hs : s.Wired) (hadds : Adds s next task) :
    Elsewhere (fun d => task.card = some d) s next := by
  refine ⟨fun k after d hafter hcard hd => ?_, fun d there _ hthere => hadds.cards ▸ hthere,
    fun d _ => idle_of_tasks fun k before hbefore hcard => ?_⟩
  · rcases hadds.task_cases hafter with hold | ⟨-, rfl⟩
    · obtain ⟨found, hfound, -⟩ := hs.gate_card hold
      exact ⟨hold, hadds.flags _ (List.getElem?_eq_some_iff.mp hfound).1⟩
    · exact absurd hcard hd
  · exact ⟨before, by rw [hadds.tasks]; exact concat_old hbefore, hcard⟩

/-- A file that waits to be served changes nothing of what is behind its card. -/
theorem Adds.keeps_held (hs : s.Wired) (hadds : Adds s next task) (hkind : task.kind = .source)
    (hdead : task.live = false) (hzero : task.deferred = 0) (hheld : s.HeldBy c) :
    next.HeldBy c := by
  obtain ⟨card, hcard, hmore, htasks⟩ := hheld
  refine ⟨card, hadds.cards ▸ hcard, hmore.keep (idle_of_tasks fun k before hbefore hbehind =>
    ⟨before, by rw [hadds.tasks]; exact concat_old hbefore, hbehind⟩) rfl id, ?_⟩
  intro k after hafter hbehind
  rcases hadds.task_cases hafter with hold | ⟨-, rfl⟩
  · obtain ⟨found, hfound, -⟩ := hs.gate_card hold
    exact (htasks k after hold hbehind).same_flags
      (hadds.flags _ (List.getElem?_eq_some_iff.mp hfound).1)
  · unfold Halted
    rw [hkind]
    exact .inr ⟨hdead, hzero⟩

theorem Adds.keeps_cancelled (hs : s.Wired) (hadds : Adds s next task)
    (howner : s.tasks[k]? = some owner) (hsame : task.card = owner.card)
    (hkind : task.kind = .source) (hdead : task.live = false) (hzero : task.deferred = 0)
    (hcancelled : s.CancelBy c) : next.CancelBy c := by
  obtain ⟨card, hcard, hrest⟩ := hcancelled
  refine ⟨card, hadds.cards ▸ hcard, ?_⟩
  have hflags : ∀ (k : Nat) (after : EngineTask), s.tasks[k]? = some after →
      next.flags after.gate = s.flags after.gate := by
    intro k after hold
    obtain ⟨found, hfound, -⟩ := hs.gate_card hold
    exact hadds.flags _ (List.getElem?_eq_some_iff.mp hfound).1
  rcases hrest with ⟨hset, hpush, hstuck⟩ | ⟨hnone, hmore, hended, hdoomed⟩
  · refine .inl ⟨hset, hpush, fun k after hafter hbehind hnow => ?_⟩
    rcases hadds.task_cases hafter with hold | ⟨-, rfl⟩
    · obtain ⟨hpushKind, hlive, hlarge, hpaused, hleft⟩ := hnow
      rw [hflags k after hold] at hpaused
      exact hstuck k after hold hbehind ⟨hpushKind, hlive, hlarge, hpaused, hleft⟩
    · exact absurd (hkind.symm.trans hnow.1) (by simp)
  · refine .inr ⟨hnone, hmore.keep (idle_of_tasks fun k before hbefore hbehind =>
      ⟨before, by rw [hadds.tasks]; exact concat_old hbefore, hbehind⟩) rfl id, ?_, ?_⟩
    · refine hended.imp_left fun hidle => ?_
      intro after hmem hbehind
      obtain ⟨place, hplace⟩ := List.mem_iff_getElem?.mp hmem
      rcases hadds.task_cases hplace with hold | ⟨-, rfl⟩
      · exact hidle after (List.mem_of_getElem? hold) hbehind
      · exact hidle owner (List.mem_of_getElem? howner) (hsame ▸ hbehind)
    · intro k after hafter hbehind
      rcases hadds.task_cases hafter with hold | ⟨-, rfl⟩
      · exact (hdoomed k after hold hbehind).same_flags (hflags k after hold)
      · unfold Doomed
        rw [hkind]
        exact .inr ⟨hdead, .inl hzero⟩

end Keeping

section Flags

variable {except : Nat → Prop} {s next : ControlDesk} {c d h k : Nat} {task : EngineTask}
  {card : ControlCard}

/-- Calm steps keep the pushes and their flags together, if those of the excepted cards are. -/
theorem Flagged.calm (hs : s.Flagged) (hcalm : Calm except s next)
    (hexcept : ∀ (c h : Nat) (task : EngineTask) (card : ControlCard), except c →
      next.tasks[h]? = some task → task.kind = .push → task.card = some c →
        next.cards[c]? = some card → (task.live = true ↔ card.flag ≠ none)) : next.Flagged := by
  intro h after c afterCard hafter hkind hcard hafterCard
  by_cases hone : except c
  · exact hexcept c h after afterCard hone hafter hkind hcard hafterCard
  · obtain ⟨before, hbefore, hkept⟩ := hcalm.task_back hafter
    obtain ⟨beforeCard, hbeforeCard, hkeptCard⟩ := hcalm.card_back hafterCard
    have hflag : afterCard.flag = beforeCard.flag :=
      hkeptCard.flag.resolve_right fun hcleared => hone hcleared.1
    have hbehind : before.card = some c := hkept.card ▸ hcard
    have hpush : before.kind = .push := hkept.kind ▸ hkind
    rw [hflag, ← hs h before c beforeCard hbefore hpush hbehind hbeforeCard]
    refine ⟨hkept.live, fun hlive => (hkept.going hpush hlive).resolve_right ?_⟩
    rintro ⟨d, hd, hexcepted⟩
    obtain rfl := Option.some.inj (hbehind.symm.trans hd)
    exact hone hexcepted

/-- A push that has ended has no flag left on its card. -/
theorem Wired.ended_flag (hs : s.Wired) (htask : s.tasks[h]? = some task) (hkind : task.kind = .push)
    (hcard : task.card = some c) (hthere : s.cards[c]? = some card) (hdead : task.live = false)
    (hflag : card.flag = none) :
    ∀ (k : Nat) (other : EngineTask) (found : ControlCard), s.tasks[k]? = some other →
      other.kind = .push → other.card = some c → s.cards[c]? = some found →
        (other.live = true ↔ found.flag ≠ none) := by
  intro k other found hother hpush hbehind hfound
  obtain rfl := Option.some.inj (hthere.symm.trans hfound)
  obtain rfl := hs.single k h other task c card hother htask hbehind hcard hthere
    (.inr (.inr ⟨hpush, hkind⟩))
  obtain rfl := Option.some.inj (hother.symm.trans htask)
  simp [hdead, hflag]

theorem Flagged.adds (hs : s.Flagged) (hadds : Adds s next task)
    (hnew : task.kind = .push → ∀ (c : Nat) (card : ControlCard), task.card = some c →
      s.cards[c]? = some card → (task.live = true ↔ card.flag ≠ none)) : next.Flagged := by
  intro h after c there hafter hkind hcard hthere
  rw [hadds.cards] at hthere
  rcases hadds.task_cases hafter with hold | ⟨-, rfl⟩
  · exact hs h after c there hold hkind hcard hthere
  · exact hnew hkind c there hcard hthere

/-- The flag of the card of a push that failed is gone. -/
theorem push_failed_flag (hthere : s.cards[c]? = some card) :
    ∃ after, (s.pushFailed h task c).cards[c]? = some after ∧ after.flag = none := by
  have hcleanup : Calm (fun _ => True) (s.updateTask h EngineTask.stop)
      ((s.updateTask h EngineTask.stop).cleanupPushSenders h) := calm_cleanup h
  obtain ⟨cleaned, hcleaned, -⟩ := hcleanup.card_on hthere
  have hlast : ∀ f, (((s.updateTask h EngineTask.stop).cleanupPushSenders h).updateCard c f).cards[c]? =
      some (f cleaned) := by
    intro f
    rw [card_update_card, hcleaned, Option.map_some, if_pos rfl]
  unfold pushFailed
  dsimp only
  split
  · exact ⟨_, hlast _, rfl⟩
  · rw [card_update_card, hlast, Option.map_some, if_pos rfl]
    exact ⟨_, rfl, rfl⟩

/-- So is that of the card of a push that is done. -/
theorem push_done_flag (hthere : s.cards[c]? = some card) :
    ∃ after, (s.pushDone h task c).cards[c]? = some after ∧ after.flag = none := by
  have hclear : ((s.updateTask h EngineTask.stop).updateCard c ControlCard.clearFlag).cards[c]? =
      some card.clearFlag := by
    rw [card_update_card]
    show Option.map _ s.cards[c]? = _
    rw [hthere, Option.map_some, if_pos rfl]
  have hflag : ∀ {f : ControlCard → ControlCard}, CalmCard True card.clearFlag (f card.clearFlag) →
      (f card.clearFlag).flag = none := fun hkept => hkept.no_flag rfl
  unfold pushDone
  dsimp only
  split
  · rw [card_update_card, hclear, Option.map_some, if_pos rfl]
    exact ⟨_, rfl, hflag calm_finish_smalls⟩
  · rw [card_update_card, hclear, Option.map_some, if_pos rfl]
    exact ⟨_, rfl, rfl⟩

end Flags

section Stopping

variable {s next : ControlDesk} {c d h k : Nat} {task : EngineTask} {card : ControlCard}
  {input : ControlInput} {emitted : List ControlEvent}

/-- A card that was told to stop is broken once its push has ended, if it has ended itself and no
file that belongs to the push goes on or holds a request for good. -/
theorem broken_by_end (hs : s.Wired) (htask : s.tasks[h]? = some task) (hkind : task.kind = .push)
    (hcard : task.card = some c) (hthere : s.cards[c]? = some card) (hflags : next.flags = s.flags)
    (htasks : ∀ (k : Nat) (after : EngineTask), next.tasks[k]? = some after →
      ∃ before, s.tasks[k]? = some before ∧ (after = before ∨ after = before.stop) ∧
        (h = k → after.live = false) ∧
          (before.kind = .source → before.offer = some h → after.live = false))
    (hheld : ∀ source ∈ s.tasks, source.offer = some h → source.deferred = 0 ∨
      (s.flags source.gate).paused = false)
    (hended : ∃ after, next.cards[c]? = some after ∧ after.kind = card.kind ∧ after.flag = none ∧
      after.Ended) : next.CancelBy c := by
  obtain ⟨after, hafter, hsameKind, hnone, hmeets⟩ := hended
  have hpush := hs.kind_of_task htask hcard hthere
  rw [hkind] at hpush
  refine ⟨after, hafter, .inr ⟨hnone, NoMore.unflagged ?_ hnone, .inr hmeets, ?_⟩⟩
  · rw [hsameKind]
    exact hpush.imp_right .inl
  · intro k found hfound hbehind
    obtain ⟨before, hbefore, hone, hself, hserved⟩ := htasks k found hfound
    have hsame : found.kind = before.kind ∧ found.card = before.card ∧ found.gate = before.gate ∧
        found.deferred = before.deferred := by
      rcases hone with rfl | rfl
      · exact ⟨rfl, rfl, rfl, rfl⟩
      · exact ⟨rfl, rfl, rfl, rfl⟩
    have hbehind' : before.card = some c := hsame.2.1 ▸ hbehind
    have hallowed := hs.kind_of_task hbefore hbehind' hthere
    unfold Doomed
    rw [hsame.1]
    cases hbeforeKind : before.kind with
    | pull =>
      rw [hbeforeKind] at hallowed
      rcases hpush with hpush | hpush <;> simp [hpush] at hallowed
    | push =>
      exact hself (hs.single h k task before c card htask hbefore hcard hbehind' hthere
        (.inr (.inr ⟨hkind, hbeforeKind⟩)))
    | source =>
      rw [hbeforeKind] at hallowed
      cases hoffer : before.offer with
      | none =>
        rw [hoffer] at hallowed
        rcases hpush with hpush | hpush <;> simp [hpush] at hallowed
      | some push =>
        -- the push that the file belongs to is the one that ended
        have hshape := hs.shape k before hbefore
        unfold Shape at hshape
        rw [hbeforeKind, hoffer] at hshape
        obtain ⟨owner, howner, hownerKind, -, hownerCard, -⟩ := hshape
        obtain rfl := hs.single h push task owner c card htask howner hcard
          (hownerCard ▸ hbehind') hthere (.inr (.inr ⟨hkind, hownerKind⟩))
        refine .inr ⟨hserved hbeforeKind hoffer, ?_⟩
        rw [hsame.2.2.1, hsame.2.2.2, hflags]
        exact hheld before (List.mem_of_getElem? hbefore) hoffer

/-- A push that fails once it was told to stop breaks its card. -/
theorem cancelled_by_failure (hs : s.Tied) (htask : s.tasks[h]? = some task)
    (hkind : task.kind = .push) (hcard : task.card = some c) (hthere : s.cards[c]? = some card)
    (hlands : s.Lands h task card) : (s.pushFailed h task c).CancelBy c := by
  have hcalm : Calm (· = c) s (s.pushFailed h task c) := calm_push_failed rfl htask hcard
  obtain ⟨after, hafter, hnone, hended⟩ := push_failed_lands hs htask hkind hcard hthere hlands
  obtain ⟨kept, hkept, hsame⟩ := hcalm.card_on hthere
  obtain rfl := Option.some.inj (hafter.symm.trans hkept)
  refine broken_by_end hs.wired htask hkind hcard hthere hcalm.flags (fun k found hfound => ?_)
    hlands.1 ⟨after, hafter, hsame.kind, hnone, hended⟩
  rw [push_failed_task, Option.map_eq_some_iff] at hfound
  obtain ⟨before, hbefore, rfl⟩ := hfound
  refine ⟨before, hbefore, ?_⟩
  by_cases hmeets : h = k ∨ ServedFor h before
  · rw [if_pos hmeets]
    exact ⟨.inr rfl, fun _ => rfl, fun _ _ => rfl⟩
  · rw [if_neg hmeets]
    refine ⟨.inl rfl, fun heq => absurd (.inl heq) hmeets, fun hsource hoffer => ?_⟩
    cases hlive : before.live with
    | false => rfl
    | true => exact absurd (.inr ⟨hsource, hlive, hoffer⟩) hmeets

/-- So does a push that is done. -/
theorem cancelled_by_done (hs : s.Tied) (htask : s.tasks[h]? = some task)
    (hkind : task.kind = .push) (hcard : task.card = some c) (hthere : s.cards[c]? = some card)
    (hlands : s.DoneLands h task card) : (s.pushDone h task c).CancelBy c := by
  have hcalm : Calm (· = c) s (s.pushDone h task c) := calm_push_done rfl htask hcard
  obtain ⟨after, hafter, hnone, hended⟩ :=
    push_done_lands hs.wired htask hkind hcard hthere hlands
  obtain ⟨kept, hkept, hsame⟩ := hcalm.card_on hthere
  obtain rfl := Option.some.inj (hafter.symm.trans hkept)
  have htasks : (s.pushDone h task c).tasks = (s.updateTask h EngineTask.stop).tasks := by
    unfold pushDone
    dsimp only
    split
    · rfl
    · rfl
  refine broken_by_end hs.wired htask hkind hcard hthere hcalm.flags (fun k found hfound => ?_)
    (fun source hmem hoffer => (hlands.1 source hmem hoffer).2)
    ⟨after, hafter, hsame.kind, hnone, hended⟩
  rw [htasks] at hfound
  obtain ⟨before, hbefore, rfl⟩ := task_of_update_task hfound
  refine ⟨before, hbefore, ?_⟩
  by_cases heq : h = k
  · rw [if_pos heq]
    exact ⟨.inr rfl, fun _ => rfl, fun _ _ => rfl⟩
  · rw [if_neg heq]
    exact ⟨.inl rfl, fun h' => absurd h' heq, fun _ hoffer =>
      (hlands.1 before (List.mem_of_getElem? hbefore) hoffer).1⟩

end Stopping

section Histories

variable {trace emitted : List ControlEvent} {c d count : Nat} {action : TaskControl}

theorem held_append (hquiet : ∀ event ∈ emitted, ∀ of action, event ≠ .answered of action) :
    Held (trace ++ emitted) c ↔ Held trace c := by
  have hsame : ∀ held, emitted.foldl (heldAfter c) held = held := by
    intro held
    induction emitted generalizing held with
    | nil => rfl
    | cons event rest ih =>
      have hevent : heldAfter c held event = held := by
        cases event with
        | worked card | controlled of card => rfl
        | answered of action => exact absurd rfl (hquiet _ List.mem_cons_self of action)
      rw [List.foldl_cons, hevent]
      exact ih (fun event hmem => hquiet event (List.mem_cons_of_mem _ hmem)) held
  unfold Held
  rw [List.foldl_append, hsame]

/-- What an answer changes of what is held. -/
theorem held_answered : Held (trace ++ [.answered c action]) d ↔
    match action with
    | .pause => d = c ∨ Held trace d
    | .resume => d ≠ c ∧ Held trace d
    | .cancel => Held trace d := by
  unfold Held
  rw [List.foldl_append]
  cases action with
  | cancel => exact Iff.rfl
  | pause =>
    show (if c = d then true else _) = true ↔ _
    by_cases heq : c = d
    · simp [heq]
    · have hne : d ≠ c := fun h => heq h.symm
      simp [heq, hne]
  | resume =>
    show (if c = d then false else _) = true ↔ _
    by_cases heq : c = d
    · simp [heq]
    · have hne : d ≠ c := fun h => heq h.symm
      simp [heq, hne]

end Histories

/-- What holds after a run that keeps to `Routed`. -/
structure Obeyed (trace : List ControlEvent) (s : ControlDesk) : Prop where
  tied : s.Tied
  flagged : s.Flagged
  steered : EachEvent Steered trace
  held : ∀ c, Held trace c → s.HeldBy c
  cancelled : ∀ c, Cancelled trace c → s.CancelBy c

section Steps

variable {s next : ControlDesk} {trace emitted : List ControlEvent} {c d h : Nat}
  {task : EngineTask} {card : ControlCard} {input : ControlInput} {action : TaskControl}

/-- A step of a task works only if the task is not halted. -/
theorem Moves.emits (hmove : Moves s h task input next emitted) :
    emitted = [] ∨ (emitted = [.worked task.card] ∧ ¬ s.Halted task) := by
  cases hmove with
  | works k name hkind hlive hdrain =>
    refine .inr ⟨rfl, fun hhalted => ?_⟩
    unfold Halted at hhalted
    rw [hkind] at hhalted
    exact hhalted hlive hdrain
  | small k left hkind hlive hleft hfree =>
    refine .inr ⟨rfl, fun hhalted => hfree ?_⟩
    unfold Halted at hhalted
    rw [hkind] at hhalted
    exact hhalted hlive
  | fetch k hkind hlive hfree =>
    refine .inr ⟨rfl, fun hhalted => ?_⟩
    unfold Halted at hhalted
    rw [hkind] at hhalted
    rcases hhalted with hpaused | ⟨hdead, -⟩
    · rw [hfree] at hpaused
      cases hpaused
    · rw [hlive] at hdead
      cases hdead
  | wake k hkind hdeferred hfree =>
    refine .inr ⟨rfl, fun hhalted => ?_⟩
    unfold Halted at hhalted
    rw [hkind] at hhalted
    rcases hhalted with hpaused | ⟨-, hzero⟩
    · rw [hfree] at hpaused
      cases hpaused
    · omega
  | _ => exact .inl rfl

/-- A step that answers no action. -/
theorem Obeyed.quiet (hs : Obeyed trace s) (htied : next.Tied) (hflagged : next.Flagged)
    (hemitted : emitted = [] ∨
      ∃ card, emitted = [.worked card] ∧ ∀ c, card = some c → ¬ s.HeldBy c)
    (hheld : ∀ c, s.HeldBy c → next.HeldBy c) (hcancelled : ∀ c, s.CancelBy c → next.CancelBy c) :
    Obeyed (trace ++ emitted) next := by
  have hquiet : ∀ event ∈ emitted, ∀ of action, event ≠ .answered of action := by
    intro event hmem of action
    rcases hemitted with rfl | ⟨card, rfl, -⟩
    · simp at hmem
    · rw [List.mem_singleton.mp hmem]
      simp
  refine ⟨htied, hflagged, ?_, fun c hc => ?_, fun c hc => ?_⟩
  · rcases hemitted with rfl | ⟨card, rfl, hfree⟩
    · simpa using hs.steered
    · refine each_event_append.mpr ⟨hs.steered, each_event_singleton.mpr ?_⟩
      intro c hcard hheldNow
      rw [List.append_nil] at hheldNow
      exact hfree c hcard (hs.held c hheldNow)
  · exact hheld c (hs.held c ((held_append hquiet).mp hc))
  · rcases List.mem_append.mp hc with hold | hnew
    · exact hcancelled c (hs.cancelled c hold)
    · exact absurd rfl (hquiet _ hnew c .cancel)

/-- A push that begins to write is not stuck, or its card was not told to stop. -/
theorem accepted_cancelled (htask : s.tasks[h]? = some task)
    (hkind : task.kind = .push) (hlive : task.live = true)
    (hguard : Routed trace s (.accepted h)) (hcancelled : s.CancelBy c) :
    (s.updateTask h fun task => { task with left := some task.smalls }).CancelBy c := by
  obtain ⟨card, hcard, hrest⟩ := hcancelled
  have hidle : ∀ {d}, (s.updateTask h fun task => { task with left := some task.smalls }).Idle d →
      s.Idle d := fun hnext => idle_of_tasks (fun k before hbefore hbehind =>
    ⟨_, by rw [task_update_task, hbefore, Option.map_some], by split <;> exact hbehind⟩) hnext
  refine ⟨card, hcard, ?_⟩
  rcases hrest with ⟨hset, hpush, hstuck⟩ | ⟨hnone, hmore, hended, hdoomed⟩
  · refine .inl ⟨hset, hpush, fun k after hafter hbehind hnow => ?_⟩
    obtain ⟨before, hbefore, rfl⟩ := task_of_update_task hafter
    by_cases heq : h = k
    · subst heq
      obtain rfl := Option.some.inj (hbefore.symm.trans htask)
      rw [if_pos rfl] at hnow hbehind
      obtain ⟨-, -, hlarge, hpaused, left, hleft⟩ := hnow
      rcases hguard before hbefore c hbehind card hcard hset with hnot | hzero | hfree
      · rw [show before.large = true from hlarge] at hnot
        cases hnot
      · rw [show before.smalls = left + 1 from Option.some.inj hleft] at hzero
        cases hzero
      · rw [show (s.flags before.gate).paused = true from hpaused] at hfree
        cases hfree
    · rw [if_neg heq] at hnow hbehind
      exact hstuck k before hbefore hbehind hnow
  · refine .inr ⟨hnone, hmore.keep hidle rfl id, ?_, fun k after hafter hbehind => ?_⟩
    · refine hended.imp_left fun hold after hmem hbehind => ?_
      obtain ⟨k, hk⟩ := List.mem_iff_getElem?.mp hmem
      obtain ⟨before, hbefore, rfl⟩ := task_of_update_task hk
      refine hold before (List.mem_of_getElem? hbefore) ?_
      split at hbehind
      · exact hbehind
      · exact hbehind
    · obtain ⟨before, hbefore, rfl⟩ := task_of_update_task hafter
      by_cases heq : h = k
      · subst heq
        obtain rfl := Option.some.inj (hbefore.symm.trans htask)
        rw [if_pos rfl] at hbehind
        -- the push has ended
        have hdead := hdoomed h before hbefore hbehind
        unfold Doomed at hdead
        rw [hkind] at hdead
        rw [show before.live = false from hdead] at hlive
        cases hlive
      · rw [if_neg heq] at hbehind ⊢
        exact hdoomed k before hbefore hbehind

/-- The cards that were told to stop, after a step of a task. -/
theorem Moves.cancelled_keep (hs : s.Tied) (htask : s.tasks[h]? = some task)
    (hmover : mover input = some h) (hguard : Routed trace s input)
    (hserve : ∀ k name, input ≠ .serve k name) (hmove : Moves s h task input next emitted)
    (hcancelled : s.CancelBy c) : next.CancelBy c := by
  have hcalm := hmove.calm hs.wired htask hserve
  by_cases hexempt : Exempt task input c
  · -- the push of the card itself begins to write, or ends
    have hasked : task.kind = .push → task.live = true → task.card = some c →
        ∃ card, s.cards[c]? = some card ∧ card.flag = some true := by
      intro hkind hlive hcard
      obtain ⟨card, hthere, ⟨hset, -⟩ | ⟨-, -, -, hdoomed⟩⟩ := hcancelled
      · exact ⟨card, hthere, hset⟩
      · have hdead := hdoomed h task htask hcard
        unfold Doomed at hdead
        rw [hkind] at hdead
        rw [show task.live = false from hdead] at hlive
        cases hlive
    cases hmove with
    | accepted k hkind hlive hleft =>
      obtain rfl := Option.some.inj hmover
      exact accepted_cancelled htask hkind hlive hguard hcancelled
    | unset k => exact hcancelled
    | check k d card hkind hlive hcard hthere hflag =>
      obtain rfl := Option.some.inj hmover
      obtain rfl := Option.some.inj (hcard.symm.trans hexempt)
      exact cancelled_by_failure hs htask hkind hcard hthere
        (hguard task htask d hcard card hthere hflag)
    | done k d hkind hlive hcard hstarted =>
      obtain rfl := Option.some.inj hmover
      obtain rfl := Option.some.inj (hcard.symm.trans hexempt)
      obtain ⟨card, hthere, hset⟩ := hasked hkind hlive hcard
      exact cancelled_by_done hs htask hkind hcard hthere
        (hguard task htask d hcard card hthere hset)
    | failed k d hkind hlive hcard =>
      obtain rfl := Option.some.inj hmover
      obtain rfl := Option.some.inj (hcard.symm.trans hexempt)
      obtain ⟨card, hthere, hset⟩ := hasked hkind hlive hcard
      have hlands := hguard task htask d hcard card hthere hset
      rw [if_neg (by simp)] at hlands
      exact cancelled_by_failure hs htask hkind hcard hthere hlands
    | _ => exact hexempt.elim
  · exact hcancelled.calm hcalm hexempt

/-- The pushes and their flags, after a step of a task. -/
theorem Moves.flagged_keep (hs : s.Tied) (hflagged : s.Flagged) (hnext : next.Wired)
    (htask : s.tasks[h]? = some task) (hserve : ∀ k name, input ≠ .serve k name)
    (hmove : Moves s h task input next emitted) : next.Flagged := by
  have hcalm := hmove.calm hs.wired htask hserve
  have hafter : ∀ {k : Nat} {after : EngineTask}, next.tasks[k]? = some after → k = h →
      after.kind = task.kind ∧ after.card = task.card := by
    rintro k after hk rfl
    obtain ⟨before, hbefore, hkept⟩ := hcalm.task_back hk
    obtain rfl := Option.some.inj (hbefore.symm.trans htask)
    exact ⟨hkept.kind, hkept.card⟩
  -- the push that ends leaves a card without a flag
  have hend : ∀ d, task.kind = .push → task.card = some d →
      (∃ after, next.tasks[h]? = some after ∧ after.live = false) →
      (∃ after, next.cards[d]? = some after ∧ after.flag = none) →
      ∀ (k : Nat) (other : EngineTask) (found : ControlCard), next.tasks[k]? = some other →
        other.kind = .push → other.card = some d → next.cards[d]? = some found →
          (other.live = true ↔ found.flag ≠ none) := by
    rintro d hkind hcard ⟨after, hthere, hdead⟩ ⟨card, hfound, hnone⟩
    obtain ⟨hsame, hsameCard⟩ := hafter hthere rfl
    exact hnext.ended_flag hthere (hsame.trans hkind) (hsameCard.trans hcard) hfound hdead hnone
  refine hflagged.calm hcalm fun d k after there hexempt hk hkind hcard hthere => ?_
  cases hmove with
  | accepted place hpush hlive hleft =>
    obtain ⟨before, hbefore, rfl⟩ := task_of_update_task hk
    have hsame : ∀ found : EngineTask, (if h = k then { found with left := some found.smalls }
        else found).live = found.live ∧ (if h = k then { found with left := some found.smalls }
        else found).kind = found.kind ∧ (if h = k then { found with left := some found.smalls }
        else found).card = found.card := by
      intro found
      split
      · exact ⟨rfl, rfl, rfl⟩
      · exact ⟨rfl, rfl, rfl⟩
    rw [(hsame before).1]
    rw [(hsame before).2.1] at hkind
    rw [(hsame before).2.2] at hcard
    exact hflagged k before d there hbefore hkind hcard hthere
  | unset place => exact hflagged k after d there hk hkind hcard hthere
  | check place d' card hpush hlive hbehind hfound hflag =>
    obtain rfl := Option.some.inj (hbehind.symm.trans hexempt)
    refine hend d' hpush hbehind ⟨task.stop, ?_, rfl⟩ (push_failed_flag hfound) k after there hk
      hkind hcard hthere
    rw [push_failed_task, htask, Option.map_some, if_pos (.inl rfl)]
  | done place d' hpush hlive hbehind hstarted =>
    obtain rfl := Option.some.inj (hbehind.symm.trans hexempt)
    obtain ⟨card, hfound⟩ := hs.wired.card_of_task htask hbehind
    refine hend d' hpush hbehind ⟨task.stop, ?_, rfl⟩ (push_done_flag hfound) k after there hk
      hkind hcard hthere
    unfold pushDone
    dsimp only
    split
    · show (s.updateTask h EngineTask.stop).tasks[h]? = _
      rw [task_update_task, htask, Option.map_some, if_pos rfl]
    · show (s.updateTask h EngineTask.stop).tasks[h]? = _
      rw [task_update_task, htask, Option.map_some, if_pos rfl]
  | failed place d' hpush hlive hbehind =>
    obtain rfl := Option.some.inj (hbehind.symm.trans hexempt)
    obtain ⟨card, hfound⟩ := hs.wired.card_of_task htask hbehind
    refine hend d' hpush hbehind ⟨task.stop, ?_, rfl⟩ (push_failed_flag hfound) k after there hk
      hkind hcard hthere
    rw [push_failed_task, htask, Option.map_some, if_pos (.inl rfl)]
  | _ => exact hexempt.elim

end Steps

section DeskSteps

variable {s next : ControlDesk} {trace emitted : List ControlEvent} {c d h : Nat}
  {task : EngineTask} {card : ControlCard} {input : ControlInput} {action : TaskControl}

/-- A step of a task, but that a file is served. -/
theorem Obeyed.moves (hs : Obeyed trace s) (hwired : next.Wired) (htask : s.tasks[h]? = some task)
    (hmover : mover input = some h) (hguard : Routed trace s input)
    (hserve : ∀ k name, input ≠ .serve k name) (hmove : Moves s h task input next emitted) :
    Obeyed (trace ++ emitted) next := by
  have hcalm := hmove.calm hs.tied.wired htask hserve
  refine hs.quiet (hs.tied.calm hcalm hwired)
    (hmove.flagged_keep hs.tied hs.flagged hwired htask hserve) ?_
    (fun c hheld => hheld.calm hcalm)
    fun c hcancelled => hmove.cancelled_keep hs.tied htask hmover hguard hserve hcancelled
  rcases hmove.emits with rfl | ⟨rfl, hbusy⟩
  · exact .inl rfl
  · refine .inr ⟨task.card, rfl, fun c hcard hheld => hbusy ?_⟩
    obtain ⟨-, -, -, htasks⟩ := hheld
    exact htasks h task htask hcard

theorem Flagged.joins {push : Nat} (hs : s.Flagged) (htask : s.tasks[h]? = some task)
    (hkind : task.kind = .source) (hjoin : Joins s next h task push c) : next.Flagged := by
  intro k after d there hafter hpush hcard hthere
  obtain ⟨before, hbefore, hkept⟩ := option_rel_back (hjoin.cards d) hthere
  have hflag : there.flag = before.flag := hkept.flag.resolve_right fun hcleared => hcleared.1
  rw [hflag]
  rcases hjoin.task_cases htask hafter with ⟨rfl, rfl⟩ | ⟨-, hold⟩
  · have hsource : (task.serve push).kind = .source := hkind
    exact absurd (hsource.symm.trans hpush) (by simp)
  · exact hs k after d before hold hpush hcard hbefore

theorem Flagged.opens (hs : s.Flagged) (hwired : s.Wired) (htask : s.tasks[h]? = some task)
    (hkind : task.kind = .source) (hopen : Opens s next h task) : next.Flagged := by
  intro k after d there hafter hpush hcard hthere
  rcases hopen.task_cases htask hafter with ⟨rfl, rfl⟩ | ⟨-, hold⟩
  · have hsource : ((task.serve k).assign s.cards.length).kind = .source := hkind
    exact absurd (hsource.symm.trans hpush) (by simp)
  · rcases hopen.added d there hthere with hbefore | ⟨rfl, -⟩
    · exact hs k after d there hold hpush hcard hbefore
    · exact absurd hcard (hwired.idle_next after (List.mem_of_getElem? hold))

/-- A file is served from now on. -/
theorem Obeyed.serve {name : String} (hs : Obeyed trace s)
    (hwired : ((s.updateTask h (EngineTask.serve (s.servedGate h task))).handleServed h task
      name).Wired) (htask : s.tasks[h]? = some task) (hkind : task.kind = .source)
    (hnew : task.started = false) (hright : s.AttachesRight task) :
    Obeyed trace
      ((s.updateTask h (EngineTask.serve (s.servedGate h task))).handleServed h task name) := by
  have hmeets := hright
  unfold AttachesRight at hmeets
  have hsame : trace ++ [] = trace := List.append_nil trace
  cases hoffer : task.offer with
  | none =>
    have hgate : s.servedGate h task = h := by
      unfold servedGate
      rw [hoffer]
    rw [hgate] at hwired ⊢
    have hopen := serve_opens name hs.tied.wired htask hnew hoffer
    have hcard : task.card = none := by
      have hshape := hs.tied.wired.shape h task htask
      unfold Shape at hshape
      rw [hkind, hoffer] at hshape
      rcases hshape with ⟨-, -, -, hnone, -⟩ | ⟨hstarted, -⟩
      · exact hnone
      · rw [hnew] at hstarted
        cases hstarted
    have helse := hopen.elsewhere htask hcard
    have hold : ∀ {c : Nat} {card : ControlCard}, s.cards[c]? = some card →
        ¬ c = s.cards.length := by
      rintro c card hthere rfl
      rw [List.getElem?_eq_none (Nat.le_refl _)] at hthere
      cases hthere
    refine hsame ▸ hs.quiet (hs.tied.opens hwired htask hoffer hopen)
      (hs.flagged.opens hs.tied.wired htask hkind hopen) (.inl rfl) (fun c hheld => ?_)
      fun c hcancelled => ?_
    · obtain ⟨card, hthere, -⟩ := id hheld
      exact hheld.elsewhere helse (hold hthere)
    · obtain ⟨card, hthere, -⟩ := id hcancelled
      exact hcancelled.elsewhere helse (hold hthere)
  | some push =>
    rw [hoffer] at hmeets
    obtain ⟨⟨owner, howner, hlive⟩, c, hcard, card, hthere, hattach⟩ := hmeets
    rw [served_gate hs.tied.wired htask hkind hoffer howner hlive] at hwired ⊢
    have hjoin := serve_joins (h := h) name hoffer hcard hthere hattach
    exact hsame ▸ hs.quiet (hs.tied.joins hwired htask hcard hjoin)
      (hs.flagged.joins htask hkind hjoin) (.inl rfl)
      (fun d hheld => hheld.joins hs.tied.wired htask hkind hoffer howner hlive hjoin)
      fun d hcancelled =>
        hcancelled.joins hs.tied.wired htask hkind hoffer howner hlive hjoin

/-- The card is one of several files that are downloaded, or of a folder. -/
theorem no_more_batch (hkind : card.kind = .batchDownload ∨ card.kind = .folderDownload) :
    ¬ s.NoMore c card := by
  intro hmore
  unfold NoMore at hmore
  rcases hkind with hone | hone
  · rw [hone] at hmore
    exact hmore
  · rw [hone] at hmore
    exact hmore

/-- Such a card was not told to stop. -/
theorem no_cancel_batch (hthere : s.cards[c]? = some card)
    (hkind : card.kind = .batchDownload ∨ card.kind = .folderDownload) : ¬ s.CancelBy c := by
  rintro ⟨found, hfound, ⟨-, hpush, -⟩ | ⟨-, hmore, -⟩⟩
  · obtain rfl := Option.some.inj (hthere.symm.trans hfound)
    rcases hkind with hone | hone <;> rcases hpush with hpush | hpush <;> simp [hone] at hpush
  · obtain rfl := Option.some.inj (hthere.symm.trans hfound)
    exact no_more_batch hkind hmore

/-- Its flag is removed, and what goes on behind it may end. -/
theorem Obeyed.clear_batch (hs : Obeyed trace s) (hwired : next.Wired)
    (hthere : s.cards[c]? = some card)
    (hkind : card.kind = .batchDownload ∨ card.kind = .folderDownload)
    (hcalm : Calm (· = c) s next) : Obeyed trace next := by
  have hsame : trace ++ [] = trace := List.append_nil trace
  refine hsame ▸ hs.quiet (hs.tied.calm hcalm hwired) ?_ (.inl rfl)
    (fun d hheld => hheld.calm hcalm) fun d hcancelled => ?_
  · refine hs.flagged.calm hcalm fun d k after there hexcept hafter hpush hcard hfound => ?_
    subst hexcept
    -- no push is behind such a card
    obtain ⟨before, hbefore, hkept⟩ := hcalm.task_back hafter
    have hallowed := hs.tied.wired.kind_of_task hbefore (hkept.card ▸ hcard) hthere
    rw [show before.kind = .push from hkept.kind ▸ hpush] at hallowed
    rcases hkind with hone | hone <;> simp [hone] at hallowed
  · by_cases heq : d = c
    · subst heq
      exact absurd hcancelled (no_cancel_batch hthere hkind)
    · exact hcancelled.calm hcalm heq

/-- The queue for a card times out. -/
theorem Obeyed.queue_timeout (hs : Obeyed trace s)
    (hwired : (s.updateCard c fun card => (card.apply .queueTimeout).clearFlag).Wired)
    (hidle : s.Idle c) :
    Obeyed trace (s.updateCard c fun card => (card.apply .queueTimeout).clearFlag) := by
  have hsame : trace ++ [] = trace := List.append_nil trace
  have hcalm : Calm (· = c) s (s.updateCard c fun card => (card.apply .queueTimeout).clearFlag) :=
    calm_update_card fun card _ => calm_apply.trans ⟨rfl, id, id, .inr ⟨rfl, rfl⟩⟩
  refine hsame ▸ hs.quiet (hs.tied.calm hcalm hwired) ?_ (.inl rfl)
    (fun d hheld => hheld.calm hcalm) fun d hcancelled => ?_
  · refine hs.flagged.calm hcalm fun d k after there hexcept hafter _ hcard _ => ?_
    subst hexcept
    exact absurd hcard (hidle after (List.mem_of_getElem? hafter))
  · by_cases heq : d = c
    · subst heq
      obtain ⟨card, hthere, hrest⟩ := hcancelled
      have hafter : (s.updateCard d fun card => (card.apply .queueTimeout).clearFlag).cards[d]? =
          some (card.apply .queueTimeout).clearFlag := by
        rw [card_update_card, hthere, Option.map_some, if_pos rfl]
      have hmore : s.NoMore d (card.apply .queueTimeout).clearFlag := by
        rcases hrest with ⟨-, hpush, -⟩ | ⟨-, hmore, -⟩
        · exact NoMore.unflagged (hpush.imp_right .inl) rfl
        · have hsameKind : (card.apply .queueTimeout).clearFlag.kind = card.kind := rfl
          exact hmore.keep id hsameKind fun _ => rfl
      refine ⟨_, hafter, .inr ⟨rfl, hmore, .inl hidle, fun k task htask hbehind => ?_⟩⟩
      exact absurd hbehind (hidle task (List.mem_of_getElem? htask))
    · exact hcancelled.calm hcalm heq

/-- A card is made. -/
theorem Obeyed.new_card {kind : CardKind} {peer : Nat} (hs : Obeyed trace s)
    (hwired : Wired { s with cards := s.cards ++ [ControlCard.new kind peer] }) :
    Obeyed trace { s with cards := s.cards ++ [ControlCard.new kind peer] } := by
  have hsame : trace ++ [] = trace := List.append_nil trace
  have helse : Elsewhere (fun _ => False) s
      { s with cards := s.cards ++ [ControlCard.new kind peer] } :=
    ⟨fun _ _ _ htask _ _ => ⟨htask, rfl⟩, fun _ _ _ hthere => concat_old hthere, fun _ _ => id⟩
  have hidle := hs.tied.wired.idle_next
  refine hsame ▸ hs.quiet ⟨hwired, hs.tied.heard, ?_, ?_⟩ ?_ (.inl rfl)
    (fun d hheld => hheld.elsewhere helse id) fun d hcancelled => hcancelled.elsewhere helse id
  · intro h task d there htask hkind hlive hoffer hcard hthere
    rcases concat_cases hthere with hold | ⟨rfl, -⟩
    · exact hs.tied.attached h task d there htask hkind hlive hoffer hcard hold
    · exact absurd hcard (hidle task (List.mem_of_getElem? htask))
  · intro d there hthere
    rcases concat_cases hthere with hold | ⟨-, rfl⟩
    · exact hs.tied.distinct d there hold
    · intro i j first second hfirst
      simp [ControlCard.new] at hfirst
  · intro h task d there htask hkind hcard hthere
    rcases concat_cases hthere with hold | ⟨rfl, -⟩
    · exact hs.flagged h task d there htask hkind hcard hold
    · exact absurd hcard (hidle task (List.mem_of_getElem? htask))

/-- A task begins, for a card behind which it may begin, or it waits to be served. -/
theorem Obeyed.adds (hs : Obeyed trace s) (hwired : next.Wired) (hadds : Adds s next task)
    (hnew : task.kind = .source → task.live = false)
    (hflag : task.kind = .push → ∀ (c : Nat) (card : ControlCard), task.card = some c →
      s.cards[c]? = some card → (task.live = true ↔ card.flag ≠ none))
    (hheld : ∀ c, task.card = some c → s.HeldBy c → next.HeldBy c)
    (hcancelled : ∀ c, task.card = some c → s.CancelBy c → next.CancelBy c) :
    Obeyed trace next := by
  have hsame : trace ++ [] = trace := List.append_nil trace
  have helse := hadds.elsewhere hs.tied.wired
  refine hsame ▸ hs.quiet (hs.tied.adds hwired hadds hnew) (hs.flagged.adds hadds hflag) (.inl rfl)
    (fun d hd => ?_) fun d hd => ?_
  · by_cases hcard : task.card = some d
    · exact hheld d hcard hd
    · exact hd.elsewhere helse hcard
  · by_cases hcard : task.card = some d
    · exact hcancelled d hcard hd
    · exact hd.elsewhere helse hcard

end DeskSteps

section Actions

variable {s next : ControlDesk} {trace emitted : List ControlEvent} {c d h : Nat}
  {task : EngineTask} {card : ControlCard} {input : ControlInput} {action : TaskControl}

/-- What an answer `Ok` of `transfer_action` means. -/
theorem acts (hs : s.Wired) (hthere : s.cards[c]? = some card)
    (hact : s.transferAction c card action = some (next, emitted)) :
    (Reached s c card action next emitted ∧ (action = .cancel → card.flag = none)) ∨
      (card.flag ≠ none ∧ action = .cancel ∧
        next = (s.updateCard c fun card => { card with flag := some true }) ∧
        emitted = [.controlled c (some c), .answered c .cancel]) := by
  unfold transferAction at hact
  split at hact
  · next hflag => exact .inl ⟨hs.route_reached hthere hact, fun _ => hflag⟩
  · next flag hflag =>
    split at hact
    · obtain ⟨rfl, rfl⟩ := answer_inj hact
      exact .inr ⟨by simp [hflag], rfl, rfl, rfl⟩
    · next hnot =>
      split at hact
      · cases hact
      · exact .inl ⟨hs.route_reached hthere hact, fun heq => absurd heq hnot⟩

theorem Reached.tied (hs : s.Tied) (hreach : Reached s c card action next emitted) : next.Tied := by
  cases hreach with
  | gates gates hof hnil =>
    have hsignal := hs.set_flags (s.signal gates action).flags
    exact hsignal.update_card (hsignal.wired.apply_card _) fun card =>
      ⟨rfl, (calm_apply (P := True)).ended, rfl⟩
  | channel k task htask hbehind hkind hlive hchannel hbound =>
    have hqueued : (s.updateTask k (enqueue action)).Tied :=
      hs.enqueue (hs.wired.update_started htask (not_source_of_pull hkind) rfl rfl rfl rfl rfl rfl
        rfl)
    exact hqueued.update_card (hqueued.wired.apply_card _) fun card =>
      ⟨rfl, (calm_apply (P := True)).ended, rfl⟩

theorem Reached.flagged (hs : s.Flagged) (hreach : Reached s c card action next emitted) :
    next.Flagged := by
  have hcards : ∀ (s : ControlDesk), s.Flagged →
      (s.updateCard c fun card => card.apply action.event).Flagged := by
    intro s hs h task d after htask hkind hcard hafter
    obtain ⟨before, hbefore, rfl⟩ := card_of_update_card hafter
    have hsame : (if c = d then before.apply action.event else before).flag = before.flag := by
      split
      · rfl
      · rfl
    rw [hsame]
    exact hs h task d before htask hkind hcard hbefore
  cases hreach with
  | gates gates hof hnil => exact hcards (s.signal gates action) hs
  | channel k task htask hbehind hkind hlive hchannel hbound =>
    refine hcards (s.updateTask k (enqueue action)) fun h found d there hfound hpush hcard hthere => ?_
    rcases enqueued_task htask hfound with ⟨rfl, rfl⟩ | ⟨-, hold⟩
    · exact absurd (hkind.symm.trans hpush) (by simp)
    · exact hs h found d there hold hpush hcard hthere

/-- An answer to an action. -/
theorem Obeyed.answer (hs : Obeyed trace s) (count : Nat) (htied : next.Tied)
    (hflagged : next.Flagged) (helse : Elsewhere (· = c) s next)
    (hheld : Held (trace ++ [.answered c action]) c → next.HeldBy c)
    (hcancelled : s.CancelBy c ∨ action = .cancel → next.CancelBy c) :
    Obeyed (trace ++ (List.replicate count (.controlled c (some c)) ++ [.answered c action]))
      next := by
  have hquiet : ∀ event ∈ List.replicate count (ControlEvent.controlled c (some c)),
      ∀ of action, event ≠ .answered of action := by
    intro event hmem of action
    rw [List.eq_of_mem_replicate hmem]
    simp
  have hmark : ∀ d, Held (trace ++ (List.replicate count (.controlled c (some c)) ++
      [.answered c action])) d ↔ Held (trace ++ [.answered c action]) d := by
    intro d
    rw [← List.append_assoc, held_answered, held_answered, held_append hquiet]
  refine ⟨htied, hflagged, ?_, fun d hd => ?_, fun d hd => ?_⟩
  · refine each_event_append.mpr ⟨hs.steered, fun between event after hsplit => ?_⟩
    have hmem : event ∈ List.replicate count (.controlled c (some c)) ++ [.answered c action] := by
      rw [hsplit]
      simp
    rcases List.mem_append.mp hmem with hcontrolled | hanswered
    · rw [List.eq_of_mem_replicate hcontrolled]
      rfl
    · rw [List.mem_singleton.mp hanswered]
      trivial
  · rw [hmark] at hd
    by_cases heq : d = c
    · subst heq
      exact hheld hd
    · refine (hs.held d ?_).elsewhere helse heq
      rw [held_answered] at hd
      cases action with
      | pause => exact hd.resolve_left heq
      | resume => exact hd.2
      | cancel => exact hd
  · have hcases : Cancelled trace d ∨ (d = c ∧ action = .cancel) := by
      rcases List.mem_append.mp hd with hold | hnew
      · exact .inl hold
      · rcases List.mem_append.mp hnew with hcontrolled | hanswered
        · exact absurd rfl (hquiet _ hcontrolled d .cancel)
        · have hsame : ControlEvent.answered d .cancel = .answered c action :=
            List.mem_singleton.mp hanswered
          injection hsame with hcard haction
          exact .inr ⟨hcard, haction.symm⟩
    by_cases heq : d = c
    · subst heq
      exact hcancelled (hcases.imp (hs.cancelled d) And.right)
    · exact (hs.cancelled d (hcases.resolve_right fun h => heq h.1)).elsewhere helse heq

/-- The cancel of a card with a flag sets the flag. -/
theorem Obeyed.set_flag (hs : Obeyed trace s) (hthere : s.cards[c]? = some card)
    (hflag : card.flag ≠ none) (hguard : s.CancelReaches c card)
    (hwired : (s.updateCard c fun card => { card with flag := some true }).Wired) :
    Obeyed (trace ++ [.controlled c (some c), .answered c .cancel])
      (s.updateCard c fun card => { card with flag := some true }) := by
  have hafter : (s.updateCard c fun card => { card with flag := some true }).cards[c]? =
      some { card with flag := some true } := by
    rw [card_update_card, hthere, Option.map_some, if_pos rfl]
  refine hs.answer 1 (hs.tied.update_card hwired fun card => ⟨rfl, id, rfl⟩) ?_ ?_ ?_ ?_
  · intro h task d there htask hkind hcard hfound
    obtain ⟨before, hbefore, rfl⟩ := card_of_update_card hfound
    have hsame := hs.flagged h task d before htask hkind hcard hbefore
    split
    · next heq =>
      subst heq
      obtain rfl := Option.some.inj (hbefore.symm.trans hthere)
      simp [hsame, hflag]
    · exact hsame
  · refine ⟨fun k task d htask _ _ => ⟨htask, rfl⟩, fun d there hd hfound => ?_, fun _ _ => id⟩
    rw [card_update_card, hfound, Option.map_some, if_neg fun h => hd h.symm]
  · intro hheld
    obtain ⟨there, hfound, hmore, htasks⟩ := hs.held c (held_answered.mp hheld)
    obtain rfl := Option.some.inj (hfound.symm.trans hthere)
    have hsameKind : ({ there with flag := some true } : ControlCard).kind = there.kind := rfl
    exact ⟨_, hafter, hmore.keep id hsameKind fun hnone => absurd hnone hflag, htasks⟩
  · intro _
    have hplain := hs.tied.wired.plain c card hthere
    have hmeets := hguard
    unfold CancelReaches at hmeets
    have hpush : card.kind = .push ∨ card.kind = .batchPush := by
      cases hkind : card.kind with
      | push => exact .inl rfl
      | batchPush => exact .inr rfl
      | download => exact absurd (hplain.noFlag (.inl hkind)) hflag
      | folderDownload => exact absurd (hplain.noFlag (.inr (.inl hkind))) hflag
      | served => exact absurd (hplain.noFlag (.inr (.inr hkind))) hflag
      | batchDownload =>
        rw [hkind] at hmeets
        exact absurd hmeets.1 hflag
    refine ⟨_, hafter, .inl ⟨rfl, hpush, fun k task htask hbehind hstuck => ?_⟩⟩
    rcases hpush with hone | hone
    · rw [hone] at hmeets
      exact hmeets.1 hflag task (List.mem_of_getElem? htask) hbehind hstuck
    · rw [hone] at hmeets
      exact hmeets.1 hflag task (List.mem_of_getElem? htask) hbehind hstuck

/-- An action on a card that is answered with `Ok`. -/
theorem Obeyed.act (hs : Obeyed trace s) (hwired : next.Wired) (hthere : s.cards[c]? = some card)
    (hact : s.transferAction c card action = some (next, emitted))
    (hguard : Routed trace s (.act c action)) : Obeyed (trace ++ emitted) next := by
  rcases acts hs.tied.wired hthere hact with ⟨hreach, hflag⟩ | ⟨hflag, rfl, rfl, rfl⟩
  · obtain ⟨count, rfl⟩ := hreach.events hs.tied.wired
    refine hs.answer count (hreach.tied hs.tied) (hreach.flagged hs.flagged)
      (hreach.elsewhere hs.tied.wired) (fun hheld => ?_) fun hcancelled => ?_
    · cases action with
      | pause => exact hreach.pause_holds hs.tied.wired hthere (hguard card hthere)
      | resume => exact absurd rfl (held_answered.mp hheld).1
      | cancel => exact hreach.cancel_holds hthere (hs.held c (held_answered.mp hheld))
    · by_cases hbefore : s.CancelBy c
      · refine hreach.stays_cancelled hs.tied.wired hthere (fun hpause => ?_) hbefore
        subst hpause
        exact hguard card hthere
      · obtain rfl := hcancelled.resolve_left hbefore
        exact hreach.cancel_breaks hs.tied hs.flagged hthere (hflag rfl) (hguard card hthere)
  · exact hs.set_flag hthere hflag (hguard card hthere) hwired

end Actions

section Run

variable {s next : ControlDesk} {trace emitted : List ControlEvent} {c h : Nat}
  {task : EngineTask} {card : ControlCard} {input : ControlInput} {inputs : List ControlInput}

theorem Obeyed.desk (hs : Obeyed trace s) (hwired : next.Wired) (hguard : Routed trace s input)
    (hmove : DeskMoves s input next emitted) : Obeyed (trace ++ emitted) next := by
  have hsame : trace ++ [] = trace := List.append_nil trace
  cases hmove with
  | newCard kind peer hkind => exact hsame.symm ▸ hs.new_card hwired
  | refused c hidle hkind =>
    have hcalm : Calm (fun _ => False) s (s.updateCard c fun card => card.apply (.failed none)) :=
      calm_apply_card
    exact hs.quiet (hs.tied.calm hcalm hwired)
      (hs.flagged.calm hcalm fun _ _ _ _ hfalse => hfalse.elim) (.inl rfl)
      (fun d hheld => hheld.calm hcalm) fun d hcancelled => hcancelled.calm hcalm id
  | queueTimeout c hidle => exact hsame.symm ▸ hs.queue_timeout hwired hidle
  | metaResp c job card hthere hone =>
    have hno : ∀ found, s.cards[c]? = some found → ¬ s.NoMore c found := by
      intro found hfound hmore
      obtain rfl := Option.some.inj (hfound.symm.trans hthere)
      rcases hone with ⟨hkind, -, hidle⟩ | hkind | ⟨hkind, -⟩
      · unfold NoMore at hmore
        rw [hkind] at hmore
        exact hmore hidle
      · exact no_more_batch (.inr hkind) hmore
      · exact no_more_batch (.inl hkind) hmore
    refine hsame.symm ▸ hs.adds hwired ⟨rfl, rfl, fun _ _ => rfl, rfl, rfl, rfl⟩
      (fun hsource => by cases hsource) (fun hpush => by cases hpush) (fun d hd hheld => ?_)
      fun d hd hcancelled => ?_
    · obtain rfl := Option.some.inj hd
      obtain ⟨found, hfound, hmore, -⟩ := hheld
      exact absurd hmore (hno found hfound)
    · obtain rfl := Option.some.inj hd
      obtain ⟨found, hfound, ⟨-, hpush, -⟩ | ⟨-, hmore, -⟩⟩ := hcancelled
      · obtain rfl := Option.some.inj (hfound.symm.trans hthere)
        rcases hone with ⟨hkind, -⟩ | hkind | ⟨hkind, -⟩ <;>
          rcases hpush with hpush | hpush <;> simp [hkind] at hpush
      · exact absurd hmore (hno found hfound)
  | pushFiles c large smalls card hthere hone hflag hidle =>
    have hno : ∀ found, s.cards[c]? = some found → ¬ s.NoMore c found := by
      intro found hfound hmore
      obtain rfl := Option.some.inj (hfound.symm.trans hthere)
      unfold NoMore at hmore
      rcases hone with hkind | hkind
      · rw [hkind] at hmore
        exact hmore.elim (fun hbusy => hbusy hidle) hflag
      · rw [hkind] at hmore
        exact hmore.elim (fun hbusy => hbusy hidle) hflag
    refine hsame.symm ▸ hs.adds hwired ⟨rfl, rfl, fun k hk => Function.update_of_ne (by omega) ..,
      rfl, rfl, rfl⟩ (fun hsource => by cases hsource) (fun _ d found hd hfound => ?_)
      (fun d hd hheld => ?_) fun d hd hcancelled => ?_
    · obtain rfl := Option.some.inj hd
      obtain rfl := Option.some.inj (hfound.symm.trans hthere)
      exact ⟨fun _ => hflag, fun _ => rfl⟩
    · obtain rfl := Option.some.inj hd
      obtain ⟨found, hfound, hmore, -⟩ := hheld
      exact absurd hmore (hno found hfound)
    · obtain rfl := Option.some.inj hd
      obtain ⟨found, hfound, ⟨hset, hpush, -⟩ | ⟨-, hmore, -⟩⟩ := hcancelled
      · refine ⟨found, hfound, .inl ⟨hset, hpush, fun k after hafter hbehind hstuck => ?_⟩⟩
        rcases concat_cases hafter with hold | ⟨-, rfl⟩
        · exact hidle after (List.mem_of_getElem? hold) hbehind
        · -- the push has not been accepted yet
          obtain ⟨-, -, -, -, left, hleft⟩ := hstuck
          cases hleft
      · exact absurd hmore (hno found hfound)
  | metaReqOwn =>
    refine hsame.symm ▸ hs.adds hwired ⟨rfl, rfl, fun k hk => Function.update_of_ne (by omega) ..,
      rfl, rfl, rfl⟩ (fun _ => rfl) (fun hpush => by cases hpush) (fun d hd => by cases hd)
      fun d hd => by cases hd
  | metaReqPush push owner howner hkind hlive hlarge =>
    have hadds : Adds s
        { s with
          tasks := s.tasks ++ [{ newTask .source s.nextSourceJobId owner.card s.tasks.length with
            live := false, offer := some push }]
          flags := Function.update s.flags s.tasks.length ⟨false, false⟩
          nextSourceJobId := s.nextSourceJobId + 1 }
        { newTask .source s.nextSourceJobId owner.card s.tasks.length with
          live := false, offer := some push } :=
      ⟨rfl, rfl, fun k hk => Function.update_of_ne (by omega) .., rfl, rfl, rfl⟩
    exact hsame.symm ▸ hs.adds hwired hadds (fun _ => rfl) (fun hpush => by cases hpush)
      (fun d _ hheld => hadds.keeps_held hs.tied.wired rfl rfl rfl hheld)
      fun d _ hcancelled =>
        hadds.keeps_cancelled hs.tied.wired howner rfl rfl rfl rfl hcancelled
  | batchTick c card hthere hkind hflag =>
    refine hsame.symm ▸ hs.clear_batch hwired hthere (.inl hkind) ?_
    have hcleared : Calm (· = c) s (s.updateCard c ControlCard.clearFlag) := calm_clear_flag rfl
    refine ⟨rfl, rfl, fun _ _ hchannel => .inl hchannel, hcleared.bound, fun k => ?_,
      hcleared.cards⟩
    show Option.Rel _ _ (s.tasks.map _)[k]?
    rw [List.getElem?_map]
    cases htask : s.tasks[k]? with
    | none => exact .none
    | some task =>
      refine .some ?_
      dsimp only
      split
      · next hbehind => exact calm_stop fun _ => ⟨c, hbehind, rfl⟩
      · exact .refl _ task
  | batchEnd c ok hkind hquiet =>
    have hthere : ∃ card, s.cards[c]? = some card ∧
        (card.kind = .batchDownload ∨ card.kind = .folderDownload) := by
      rcases hkind with hkind | hkind
      · obtain ⟨card, hthere, hone⟩ := card_of_kind hkind
        exact ⟨card, hthere, .inl hone⟩
      · obtain ⟨card, hthere, hone⟩ := card_of_kind hkind
        exact ⟨card, hthere, .inr hone⟩
    obtain ⟨card, hthere, hone⟩ := hthere
    exact hsame.symm ▸ hs.clear_batch hwired hthere hone
      (calm_update_card fun _ _ => calm_apply.trans ⟨rfl, id, id, .inr ⟨rfl, rfl⟩⟩)
  | refusedAct c action => exact hsame.symm ▸ hs
  | act c action card next emitted hthere hact => exact hs.act hwired hthere hact hguard

theorem Obeyed.step (hs : Obeyed trace s) (hguard : Routed trace s input)
    (hnext : ControlDesk.step s input = some (next, emitted)) : Obeyed (trace ++ emitted) next := by
  have hwired := hs.tied.wired.step hguard hnext
  rcases step_cases hnext with hmove | ⟨h, task, hmover, htask, hmove⟩
  · exact hs.desk hwired hguard hmove
  · by_cases hserve : ∃ k name, input = .serve k name
    · obtain ⟨k, name, rfl⟩ := hserve
      obtain rfl := Option.some.inj hmover
      cases hmove with
      | serve k name hkind hnew =>
        have hsame : trace ++ [] = trace := List.append_nil trace
        exact hsame.symm ▸ hs.serve hwired htask hkind hnew (hguard task htask)
    · exact hs.moves hwired htask hmover hguard (fun k name heq => hserve ⟨k, name, heq⟩) hmove

theorem obeyed_empty : Obeyed [] empty := by
  have hno : ∀ {α : Type} {k : Nat} {a : α}, ¬ ([] : List α)[k]? = some a := by
    intro α k a h
    simp at h
  refine ⟨⟨⟨?_, ?_, ?_, ?_, ?_, ?_, ?_, ?_, ?_⟩, ?_, ?_, ?_⟩, ?_, each_event_nil, ?_, ?_⟩
  · exact fun h k task other htask => absurd htask hno
  · exact fun task hmem => by cases hmem
  · exact fun job c hc => by cases hc
  · exact fun job c hc => by cases hc
  · exact fun c card hcard => absurd hcard hno
  · exact fun job h hh => by cases hh
  · exact fun h task htask => absurd htask hno
  · exact fun c card hcard => absurd hcard hno
  · exact fun h k task other c card htask => absurd htask hno
  · exact fun job h task hh => by cases hh
  · exact fun h task c card htask => absurd htask hno
  · exact fun c card hcard => absurd hcard hno
  · exact fun h task c card htask => absurd htask hno
  · exact fun c hheld => by cases hheld
  · exact fun c hcancelled => by cases hcancelled

theorem obeyed (hexec : Exec step Routed empty inputs trace s) : Obeyed trace s := by
  induction hexec with
  | start => exact obeyed_empty
  | step _ hguard hnext ih => exact ih.step hguard hnext

end Run

section Stopped

variable {s : ControlDesk} {trace : List ControlEvent} {c h : Nat} {task : EngineTask}
  {card : ControlCard} {inputs : List ControlInput}

/-- A task that has ended has. -/
theorem ended_of_stop (tasks : List EngineTask) {next : ControlDesk}
    (htasks : next.tasks = tasks.modify h EngineTask.stop) : next.HasEnded h := by
  intro after hafter
  rw [htasks, List.getElem?_modify] at hafter
  obtain ⟨before, -, rfl⟩ := Option.map_eq_some_iff.mp hafter
  rw [if_pos rfl]
  rfl

/-- A download that was cancelled ends when it reads its channel. -/
theorem pull_ending (htask : s.tasks[h]? = some task) (hkind : task.kind = .pull)
    (hlive : task.live = true) (hlisten : task.listening = true)
    (hdrain : drain task.waiting task.queue = none) (name : String) :
    ∃ next, step s (.pull h name) = some (next, []) ∧ next.HasEnded h := by
  have hstep : step s (.pull h name) =
      some (((s.updateTask h EngineTask.stop).closeChannel task true).pullFailed task.card name,
        []) := by
    show (s.tasks[h]?).bind _ = _
    rw [htask, Option.bind_some, taskStep, if_pos ⟨hkind, hlive, hlisten⟩, hdrain]
    rfl
  refine ⟨_, hstep, ended_of_stop s.tasks ?_⟩
  unfold pullFailed
  split
  · rfl
  · split
    · rfl
    · rfl
    · rfl

/-- A file that is served under flags that were told to stop ends when it looks at them. -/
theorem source_ending (htask : s.tasks[h]? = some task) (hkind : task.kind = .source)
    (hlive : task.live = true) (hcancelled : (s.flags task.gate).cancelled = true) :
    ∃ next, step s (.fetch h) = some (next, []) ∧ next.HasEnded h := by
  have hstep : step s (.fetch h) = some (s.sourceEnded h task false, []) := by
    show (s.tasks[h]?).bind _ = _
    rw [htask, Option.bind_some, taskStep, if_pos ⟨hkind, hlive⟩, if_pos hcancelled]
  exact ⟨_, hstep, ended_of_stop s.tasks source_ended_tasks⟩

/-- A push whose flag is set ends when it looks at it, with all that is behind its card. -/
theorem push_ending (hs : s.Tied) (htask : s.tasks[h]? = some task) (hkind : task.kind = .push)
    (hlive : task.live = true) (hcard : task.card = some c) (hthere : s.cards[c]? = some card)
    (hset : card.flag = some true) (hready : task.left = none ∨ task.left = some 0) :
    ∃ next, step s (.check h) = some (next, []) ∧
      ∀ (k : Nat) (other : EngineTask), next.tasks[k]? = some other → other.card = task.card →
        other.live = false := by
  have hstep : step s (.check h) = some (s.pushFailed h task c, []) := by
    show (s.tasks[h]?).bind _ = _
    rw [htask, Option.bind_some, taskStep, hcard]
    dsimp only
    rw [if_pos ⟨hkind, hlive, hready⟩, hthere, if_pos (by simp [hset])]
  refine ⟨_, hstep, fun k other hother hsame => ?_⟩
  rw [push_failed_task, Option.map_eq_some_iff] at hother
  obtain ⟨before, hbefore, rfl⟩ := hother
  by_cases hmeets : h = k ∨ ServedFor h before
  · rw [if_pos hmeets]
    rfl
  · rw [if_neg hmeets] at hsame ⊢
    have hbehind : before.card = some c := hsame.trans hcard
    have hpush := hs.wired.kind_of_task htask hcard hthere
    rw [hkind] at hpush
    have hallowed := hs.wired.kind_of_task hbefore hbehind hthere
    cases hbeforeKind : before.kind with
    | pull =>
      rw [hbeforeKind] at hallowed
      rcases hpush with hpush | hpush <;> simp [hpush] at hallowed
    | push =>
      exact absurd (.inl (hs.wired.single h k task before c card htask hbefore hcard hbehind hthere
        (.inr (.inr ⟨hkind, hbeforeKind⟩)))) hmeets
    | source =>
      rw [hbeforeKind] at hallowed
      obtain ⟨push, owner, hoffer, howner, hownerKind, hownerCard⟩ :=
        hs.wired.push_of_source hbefore hbeforeKind hbehind hthere hpush
      obtain rfl := hs.wired.single h push task owner c card htask howner hcard hownerCard hthere
        (.inr (.inr ⟨hkind, hownerKind⟩))
      cases hgo : before.live with
      | false => rfl
      | true => exact absurd (.inr ⟨hbeforeKind, hgo, hoffer⟩) hmeets

/-- A request that is held goes on unless the flags say to wait and nothing more. -/
theorem wake_some (htask : s.tasks[h]? = some task) (hkind : task.kind = .source)
    (hheld : 0 < task.deferred)
    (hfree : (s.flags task.gate).cancelled = true ∨ (s.flags task.gate).paused = false) :
    (step s (.wake h)).isSome = true := by
  show ((s.tasks[h]?).bind _).isSome = true
  rw [htask, Option.bind_some, taskStep, if_pos ⟨hkind, hheld⟩]
  dsimp only
  split
  · next hpaused =>
    rcases hfree with hcancelled | hresumed
    · rw [if_pos hcancelled]
      rfl
    · rw [hresumed] at hpaused
      cases hpaused
  · rfl

/-- What was told to stop stops. -/
theorem CancelBy.stopping (hs : s.Tied) (hflagged : s.Flagged) (hcancelled : s.CancelBy c) :
    s.Stopping c := by
  obtain ⟨card, hthere, ⟨hset, hpush, hstuck⟩ | ⟨hnone, hmore, hended, hdoomed⟩⟩ := hcancelled
  · -- the push goes on, and all that is behind the card belongs to it
    have howned : ∀ (h : Nat) (task : EngineTask), s.tasks[h]? = some task → task.card = some c →
        (task.kind = .push ∧ task.live = true) ∨ (task.kind = .source ∧
          ∃ push owner, task.offer = some push ∧ s.tasks[push]? = some owner ∧
            owner.kind = .push ∧ owner.card = some c ∧ owner.live = true) := by
      intro h task htask hcard
      have hallowed := hs.wired.kind_of_task htask hcard hthere
      have hgoes : ∀ (k : Nat) (owner : EngineTask), s.tasks[k]? = some owner → owner.kind = .push →
          owner.card = some c → owner.live = true := fun k owner howner hkind hc =>
        (hflagged k owner c card howner hkind hc hthere).mpr (by simp [hset])
      cases hkind : task.kind with
      | pull =>
        rw [hkind] at hallowed
        rcases hpush with hpush | hpush <;> simp [hpush] at hallowed
      | push => exact .inl ⟨rfl, hgoes h task htask hkind hcard⟩
      | source =>
        obtain ⟨push, owner, hoffer, howner, hownerKind, hownerCard⟩ :=
          hs.wired.push_of_source htask hkind hcard hthere hpush
        exact .inr ⟨rfl, push, owner, hoffer, howner, hownerKind, hownerCard,
          hgoes push owner howner hownerKind hownerCard⟩
    have hbusy : ∀ (h : Nat) (task : EngineTask), s.tasks[h]? = some task → task.card = some c →
        ¬ s.Quiet c := by
      intro h task htask hcard hquiet
      rcases howned h task htask hcard with ⟨-, hlive⟩ | ⟨-, push, owner, -, howner, -, hc, hlive⟩
      · rw [hquiet task (List.mem_of_getElem? htask) hcard] at hlive
        cases hlive
      · rw [hquiet owner (List.mem_of_getElem? howner) hc] at hlive
        cases hlive
    refine ⟨fun h task htask hcard hlive => ?_, fun hquiet h task htask hcard =>
      absurd hquiet (hbusy h task htask hcard), fun hidle hquiet => ?_⟩
    · unfold Ending
      rcases howned h task htask hcard with ⟨hkind, -⟩ |
        ⟨hkind, push, owner, hoffer, howner, hownerKind, hownerCard, hownerLive⟩
      · rw [hkind]
        dsimp only
        split
        · next left hleft =>
          refine ⟨s.updateTask h fun task => { task with left := some left }, ?_, ?_⟩
          · show (s.tasks[h]?).bind _ = _
            rw [htask, Option.bind_some, taskStep, hleft]
            dsimp only
            rw [if_pos ⟨hkind, hlive⟩, if_neg fun hwait => ?_]
            exact hstuck h task htask hcard ⟨hkind, hlive, hwait.1, hwait.2, left, hleft⟩
          · rw [task_update_task, htask, Option.map_some, if_pos rfl, hkind]
        · next hnot =>
          refine push_ending hs htask hkind hlive hcard hthere hset ?_
          cases hleft : task.left with
          | none => exact .inl rfl
          | some left =>
            cases left with
            | zero => exact .inr rfl
            | succ left => exact absurd hleft (hnot left)
      · rw [hkind]
        exact .inr ⟨push, owner, hoffer, howner, hownerKind, hownerCard.trans hcard.symm, hownerLive⟩
    · refine absurd (fun task hmem hcard => ?_) hidle
      obtain ⟨k, hk⟩ := List.mem_iff_getElem?.mp hmem
      exact hbusy k task hk hcard hquiet
  · refine ⟨fun h task htask hcard hlive => ?_, fun _ h task htask hcard hkind hheld => ?_,
      fun hidle _ => ⟨card, hthere, hended.resolve_left hidle⟩⟩
    · have hdoom := hdoomed h task htask hcard
      unfold Doomed at hdoom
      unfold Ending
      cases hkind : task.kind with
      | pull =>
        rw [hkind] at hdoom
        exact pull_ending htask hkind hlive (hdoom hlive).1 (hdoom hlive).2
      | push =>
        rw [hkind] at hdoom
        rw [show task.live = false from hdoom] at hlive
        cases hlive
      | source =>
        rw [hkind] at hdoom
        rcases hdoom with hcancelled | ⟨hdead, -⟩
        · exact .inl (source_ending htask hkind hlive hcancelled)
        · rw [hdead] at hlive
          cases hlive
    · have hdoom := hdoomed h task htask hcard
      unfold Doomed at hdoom
      rw [hkind] at hdoom
      refine wake_some htask hkind hheld ?_
      rcases hdoom with hcancelled | ⟨-, hzero | hresumed⟩
      · exact .inl hcancelled
      · omega
      · exact .inr hresumed

/-- In every run that keeps to `Routed`, nothing works for a card that was paused until it is resumed,
an action reaches only tasks of its own card, and what is behind a card that was cancelled stops, so
that the card ends. -/
theorem controls_reach (hexec : Exec step Routed empty inputs trace s) :
    EachEvent Steered trace ∧ ∀ c, Cancelled trace c → s.Stopping c := by
  have hs := obeyed hexec
  exact ⟨hs.steered, fun c hc => (hs.cancelled c hc).stopping hs.tied hs.flagged⟩

end Stopped

section Deciding

variable {s : ControlDesk} {c h : Nat} {task : EngineTask} {card : ControlCard}

instance {job : Nat} : Decidable (s.Unused job) :=
  inferInstanceAs (Decidable ((∀ task ∈ _, _) ∧ ∀ k < _, _))

instance : Decidable (s.AttachesRight task) := by
  unfold AttachesRight
  split <;> infer_instance

instance : Decidable (s.PauseReaches c card) := by
  unfold PauseReaches
  split <;> infer_instance

instance : Decidable (s.CancelReaches c card) := by
  unfold CancelReaches
  split <;> infer_instance

instance (trace : List ControlEvent) (s : ControlDesk) (input : ControlInput) :
    Decidable (Routed trace s input) := by
  unfold Routed
  split <;> infer_instance

end Deciding

/-- A download that is paused, resumed and cancelled, and a push whose file is paused and resumed while
it is fetched, and cancelled then. -/
def controlRun : List ControlInput :=
  [.newCard .download 7, .metaResp 0 42, .register 0, .started 0 "a", .pull 0 "a", .act 0 .pause,
    .pull 0 "a", .act 0 .resume, .pull 0 "a", .newCard .push 8, .pushFiles 1 true 0, .accepted 1,
    .metaReq (some 1), .started 1 "b", .serve 2 "b", .fetch 2, .act 1 .pause, .fetch 2,
    .act 0 .cancel, .act 1 .resume, .wake 2, .act 1 .cancel, .check 1, .pull 0 "a"]

theorem controls_reach_run : EachEvent Steered (Machine.history step Routed empty controlRun) ∧
    ∃ s : ControlDesk, s.Stopping 0 ∧ s.Stopping 1 := by
  obtain ⟨s, hexec⟩ := exec_of_run step Routed empty controlRun (by decide +kernel)
  obtain ⟨hsteered, hstopping⟩ := controls_reach hexec
  have hfirst : .answered 0 .cancel ∈ Machine.history step Routed empty controlRun := by
    decide +kernel
  have hsecond : .answered 1 .cancel ∈ Machine.history step Routed empty controlRun := by
    decide +kernel
  exact ⟨hsteered, s, hstopping 0 hfirst, hstopping 1 hsecond⟩

/-- A pause of a card of several files that are downloaded is answered with `Ok` once the first of them
has started, and the download goes on. -/
theorem batch_download_not_held : ¬ ∀ (inputs : List ControlInput) (trace : List ControlEvent)
    (s : ControlDesk), Exec step Guard.free empty inputs trace s →
      EachEvent Steered trace ∧ ∀ c, Cancelled trace c → s.Stopping c := by
  intro hall
  obtain ⟨s, hexec⟩ := exec_of_run step Guard.free empty
    [.newCard .batchDownload 7, .metaResp 0 42, .register 0, .started 0 "a", .act 0 .pause,
      .pull 0 "a"] (by decide +kernel)
  have hhistory : Machine.history step Guard.free empty
      [.newCard .batchDownload 7, .metaResp 0 42, .register 0, .started 0 "a", .act 0 .pause,
        .pull 0 "a"] = [.answered 0 .pause, .worked (some 0)] := by
    decide +kernel
  rw [hhistory] at hexec
  have hsteered := (hall _ _ s hexec).1 [.answered 0 .pause] (.worked (some 0)) [] rfl
  exact hsteered 0 rfl (by unfold Held; decide)

end ControlDesk

end LocalTrans.Desktop
