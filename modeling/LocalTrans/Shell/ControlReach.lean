import LocalTrans.Shell.ControlEnds

/-!
# Controls that reach their task

`HeldBy` is what the tasks behind a card that was paused are in until it is resumed, and `CancelBy`
what they are in once it was cancelled. Every step that keeps to `Routed` keeps them so, and
`controls_reach` is the result for runs.
-/

namespace LocalTrans.Desktop

open Foundation

namespace ControlDesk

/-- The task asks for nothing and sends nothing. -/
def Halted (s : ControlDesk) (task : EngineTask) : Prop :=
  match task.kind with
  | .pull => task.live = true → drain task.waiting task.queue ≠ some false
  | .push => task.live = true → task.large = true ∧ (s.flags task.gate).paused = true
  | .source => (s.flags task.gate).paused = true ∨ (task.live = false ∧ task.deferred = 0)

/-- The task has ended or ends when it looks at its control, and holds no request for good. -/
def Doomed (s : ControlDesk) (task : EngineTask) : Prop :=
  match task.kind with
  | .pull => task.live = true → task.listening = true ∧ drain task.waiting task.queue = none
  | .push => task.live = false
  | .source => (s.flags task.gate).cancelled = true ∨
      (task.live = false ∧ (task.deferred = 0 ∨ (s.flags task.gate).paused = false))

/-- No download and no push begins behind the card any more. -/
def NoMore (s : ControlDesk) (c : Nat) (card : ControlCard) : Prop :=
  match card.kind with
  | .download => ¬ s.Idle c
  | .push | .batchPush => ¬ s.Idle c ∨ card.flag = none
  | .served => True
  | .batchDownload | .folderDownload => False

/-- What a pause of the card leads to. -/
def HeldBy (s : ControlDesk) (c : Nat) : Prop :=
  ∃ card, s.cards[c]? = some card ∧ s.NoMore c card ∧
    ∀ (k : Nat) (task : EngineTask), s.tasks[k]? = some task → task.card = some c → s.Halted task

/-- The flag of a push is set, and the push gets to look at it. -/
def Asked (s : ControlDesk) (c : Nat) (card : ControlCard) : Prop :=
  card.flag = some true ∧ (card.kind = .push ∨ card.kind = .batchPush) ∧
    ∀ (k : Nat) (task : EngineTask), s.tasks[k]? = some task → task.card = some c → ¬ s.Stuck task

/-- The card has ended, and every task behind it is about to. -/
def Broken (s : ControlDesk) (c : Nat) (card : ControlCard) : Prop :=
  card.flag = none ∧ s.NoMore c card ∧ (s.Idle c ∨ card.Ended) ∧
    ∀ (k : Nat) (task : EngineTask), s.tasks[k]? = some task → task.card = some c → s.Doomed task

/-- What a cancel of the card leads to. -/
def CancelBy (s : ControlDesk) (c : Nat) : Prop :=
  ∃ card, s.cards[c]? = some card ∧ (s.Asked c card ∨ s.Broken c card)

section Calmness

variable {except : Nat → Prop} {P : Prop} {s next : ControlDesk} {c : Nat}
  {before after : EngineTask} {card card' : ControlCard}

theorem CalmTask.dead (h : CalmTask P before after) (hdead : before.live = false) :
    after.live = false := by
  cases hlive : after.live with
  | false => rfl
  | true =>
    rw [h.live hlive] at hdead
    cases hdead

theorem Halted.calm (hcalm : Calm except s next) (hkept : CalmTask P before after)
    (h : s.Halted before) : next.Halted after := by
  unfold Halted at h ⊢
  rw [hkept.kind, hkept.gate, hkept.large, hcalm.flags, hkept.drained]
  revert h
  cases before.kind with
  | pull => exact fun h hlive => h (hkept.live hlive)
  | push => exact fun h hlive => h (hkept.live hlive)
  | source =>
    rintro (hpaused | ⟨hdead, hnone⟩)
    · exact .inl hpaused
    · exact .inr ⟨hkept.dead hdead, Nat.le_zero.mp (hnone ▸ hkept.deferred hdead)⟩

theorem Doomed.calm (hcalm : Calm except s next) (hkept : CalmTask P before after)
    (h : s.Doomed before) : next.Doomed after := by
  unfold Doomed at h ⊢
  rw [hkept.kind, hkept.gate, hcalm.flags, hkept.drained]
  revert h
  cases before.kind with
  | pull => exact fun h hlive => ⟨hkept.listening (h (hkept.live hlive)).1, (h (hkept.live hlive)).2⟩
  | push => exact fun h => hkept.dead h
  | source =>
    rintro (hcancelled | ⟨hdead, hnone | hresumed⟩)
    · exact .inl hcancelled
    · exact .inr ⟨hkept.dead hdead, .inl (Nat.le_zero.mp (hnone ▸ hkept.deferred hdead))⟩
    · exact .inr ⟨hkept.dead hdead, .inr hresumed⟩

/-- A flag that is set or removed was there before. -/
theorem CalmCard.no_flag (h : CalmCard P card card') (hnone : card.flag = none) :
    card'.flag = none := by
  rcases h.flag with hsame | ⟨-, hcleared⟩
  · exact hsame.trans hnone
  · exact hcleared

theorem NoMore.keep (hidle : next.Idle c → s.Idle c) (hkind : card'.kind = card.kind)
    (hflag : card.flag = none → card'.flag = none) (h : s.NoMore c card) : next.NoMore c card' := by
  unfold NoMore at h ⊢
  rw [hkind]
  revert h
  cases card.kind with
  | download => exact fun h hnext => h (hidle hnext)
  | push | batchPush => exact fun h => h.imp (fun h hnext => h (hidle hnext)) hflag
  | served => exact id
  | batchDownload | folderDownload => exact id

theorem HeldBy.calm (hcalm : Calm except s next) (h : s.HeldBy c) : next.HeldBy c := by
  obtain ⟨card, hcard, hmore, htasks⟩ := h
  obtain ⟨after, hafter, hkept⟩ := hcalm.card_on hcard
  refine ⟨after, hafter, hmore.keep hcalm.idle_iff.mp hkept.kind hkept.no_flag, ?_⟩
  intro k task htask hbehind
  obtain ⟨before, hbefore, hsame⟩ := hcalm.task_back htask
  exact (htasks k before hbefore (hsame.card ▸ hbehind)).calm hcalm hsame

/-- A push that is not stuck does not get stuck by calm steps. -/
theorem Stuck.calm (hcalm : Calm except s next) (hkept : CalmTask P before after) (hexcept : ¬ P)
    (h : next.Stuck after) : s.Stuck before := by
  obtain ⟨hkind, hlive, hlarge, hpaused, hleft⟩ := h
  refine ⟨hkept.kind ▸ hkind, hkept.live hlive, hkept.large ▸ hlarge, ?_,
    (hkept.left hleft).resolve_right hexcept⟩
  rw [← hkept.gate, ← hcalm.flags]
  exact hpaused

theorem CancelBy.calm (hcalm : Calm except s next) (hexcept : ¬ except c) (h : s.CancelBy c) :
    next.CancelBy c := by
  obtain ⟨card, hcard, hrest⟩ := h
  obtain ⟨after, hafter, hkept⟩ := hcalm.card_on hcard
  have hflag : after.flag = card.flag := hkept.flag.resolve_right fun hcleared => hexcept hcleared.1
  refine ⟨after, hafter, ?_⟩
  rcases hrest with ⟨hset, hpush, hstuck⟩ | ⟨hnone, hmore, hended, hdoomed⟩
  · refine .inl ⟨hflag.trans hset, hkept.kind.symm ▸ hpush, fun k task htask hbehind hnow => ?_⟩
    obtain ⟨before, hbefore, hsame⟩ := hcalm.task_back htask
    have hbehind' : before.card = some c := hsame.card ▸ hbehind
    refine hstuck k before hbefore hbehind' (Stuck.calm hcalm hsame ?_ hnow)
    rintro ⟨d, hd, hone⟩
    obtain rfl := Option.some.inj (hbehind'.symm.trans hd)
    exact hexcept hone
  · refine .inr ⟨hflag.trans hnone, hmore.keep hcalm.idle_iff.mp hkept.kind hkept.no_flag,
      hended.imp hcalm.idle_iff.mpr hkept.ended, fun k task htask hbehind => ?_⟩
    obtain ⟨before, hbefore, hsame⟩ := hcalm.task_back htask
    exact (hdoomed k before hbefore (hsame.card ▸ hbehind)).calm hcalm hsame

end Calmness

/-- A step leaves the cards that it does not touch as they are, and the tasks behind them with the
flags they look at. -/
structure Elsewhere (touched : Nat → Prop) (s next : ControlDesk) : Prop where
  tasks : ∀ (k : Nat) (task : EngineTask) (d : Nat), next.tasks[k]? = some task →
    task.card = some d → ¬ touched d →
      s.tasks[k]? = some task ∧ next.flags task.gate = s.flags task.gate
  cards : ∀ (d : Nat) (card : ControlCard), ¬ touched d → s.cards[d]? = some card →
    next.cards[d]? = some card
  idle : ∀ d, ¬ touched d → next.Idle d → s.Idle d

section Untouched

variable {touched : Nat → Prop} {s next : ControlDesk} {c : Nat} {task : EngineTask}
  {card : ControlCard}

theorem Halted.same_flags (h : s.Halted task) (hflags : next.flags task.gate = s.flags task.gate) :
    next.Halted task := by
  unfold Halted at h ⊢
  rw [hflags]
  exact h

theorem Doomed.same_flags (h : s.Doomed task) (hflags : next.flags task.gate = s.flags task.gate) :
    next.Doomed task := by
  unfold Doomed at h ⊢
  rw [hflags]
  exact h

theorem HeldBy.elsewhere (helse : Elsewhere touched s next) (hc : ¬ touched c) (h : s.HeldBy c) :
    next.HeldBy c := by
  obtain ⟨card, hcard, hmore, htasks⟩ := h
  refine ⟨card, helse.cards c card hc hcard, hmore.keep (helse.idle c hc) rfl id, ?_⟩
  intro k task htask hbehind
  obtain ⟨hold, hflags⟩ := helse.tasks k task c htask hbehind hc
  exact (htasks k task hold hbehind).same_flags hflags

theorem CancelBy.elsewhere (helse : Elsewhere touched s next) (hc : ¬ touched c)
    (h : s.CancelBy c) : next.CancelBy c := by
  obtain ⟨card, hcard, hrest⟩ := h
  refine ⟨card, helse.cards c card hc hcard, ?_⟩
  rcases hrest with ⟨hset, hpush, hstuck⟩ | ⟨hnone, hmore, hended, hdoomed⟩
  · refine .inl ⟨hset, hpush, fun k task htask hbehind hnow => ?_⟩
    obtain ⟨hold, hflags⟩ := helse.tasks k task c htask hbehind hc
    obtain ⟨hkind, hlive, hlarge, hpaused, hleft⟩ := hnow
    rw [hflags] at hpaused
    exact hstuck k task hold hbehind ⟨hkind, hlive, hlarge, hpaused, hleft⟩
  · refine .inr ⟨hnone, hmore.keep (helse.idle c hc) rfl id, hended.imp_left fun hidle => ?_, ?_⟩
    · intro task hmem hbehind
      obtain ⟨k, hk⟩ := List.mem_iff_getElem?.mp hmem
      obtain ⟨hold, -⟩ := helse.tasks k task c hk hbehind hc
      exact hidle task (List.mem_of_getElem? hold) hbehind
    · intro k task htask hbehind
      obtain ⟨hold, hflags⟩ := helse.tasks k task c htask hbehind hc
      exact (hdoomed k task hold hbehind).same_flags hflags

end Untouched

/-- The card that a push of its own accord may leave without flag, or begin to write for. -/
def Exempt (task : EngineTask) : ControlInput → Nat → Prop
  | .accepted _, d | .check _, d | .pushEnd _ _, d => task.card = some d
  | _, _ => False

section Moving

variable {s next : ControlDesk} {c h : Nat} {task : EngineTask} {input : ControlInput}
  {emitted : List ControlEvent}

theorem calm_retask {except : Nat → Prop} {g : EngineTask → EngineTask}
    (htask : s.tasks[h]? = some task) (hg : CalmTask (OnCard except task) task (g task)) :
    Calm except s (s.updateTask h g) := by
  refine calm_update_task fun found hfound => ?_
  obtain rfl := Option.some.inj (hfound.symm.trans htask)
  exact hg

theorem Wired.push_card (hs : s.Wired) (htask : s.tasks[h]? = some task)
    (hkind : task.kind = .push) : ∃ c, task.card = some c := by
  have hshape := hs.shape h task htask
  unfold Shape at hshape
  rw [hkind] at hshape
  obtain ⟨-, c, -, hcard, -⟩ := hshape
  exact ⟨c, hcard⟩

/-- Every step of a task is calm, but that a file is served. -/
theorem Moves.calm (hs : s.Wired) (htask : s.tasks[h]? = some task)
    (hmove : Moves s h task input next emitted)
    (hserve : ∀ k name, input ≠ .serve k name) : Calm (Exempt task input) s next := by
  cases hmove with
  | register k hkind hlive =>
    have hlistens : Calm (Exempt task (.register k)) s
        (s.updateTask h fun task => { task with listening := true }) :=
      calm_retask htask ⟨rfl, rfl, rfl, rfl, rfl, rfl, id, fun _ hlive => .inl hlive, fun _ => rfl,
        fun _ => rfl, rfl, .inl, fun _ => Nat.le_refl _⟩
    refine ⟨rfl, rfl, fun job place hplace => ?_, hlistens.bound, hlistens.tasks, hlistens.cards⟩
    by_cases heq : job = task.job
    · subst heq
      obtain rfl : h = place := by simpa using hplace
      refine .inr ⟨{ task with listening := true }, ?_, rfl⟩
      show (s.updateTask h _).tasks[h]? = _
      rw [task_update_task, htask, Option.map_some, if_pos rfl]
    · exact .inl (by simpa [Function.update_of_ne heq] using hplace)
  | waits k name hkind hlive hdrain | works k name hkind hlive hdrain =>
    exact calm_retask htask ⟨rfl, rfl, rfl, rfl, rfl, rfl, id, fun _ hlive => .inl hlive,
      fun _ => rfl, id, hdrain.symm, .inl, fun _ => Nat.le_refl _⟩
  | cancelled k name hkind hlive =>
    have hended : Calm (Exempt task (.pull k name)) s (s.updateTask h EngineTask.stop) :=
      calm_retask htask (calm_stop fun hpush => by rw [hkind] at hpush; cases hpush)
    exact (hended.trans calm_close_channel).trans calm_pull_failed
  | pullEnd k name ok hkind hlive =>
    have hheard : Calm (Exempt task (.pullEnd k name ok)) s (s.hearStart h task name) :=
      calm_hear_start htask (by simp [hkind])
    obtain ⟨heard, hthere, hkept⟩ := hheard.task_on htask
    have hended : Calm (Exempt task (.pullEnd k name ok)) (s.hearStart h task name)
        ((s.hearStart h task name).updateTask h EngineTask.stop) :=
      calm_retask hthere (calm_stop fun hpush => by
        rw [hkept.kind, hkind] at hpush
        cases hpush)
    exact ((hheard.trans hended).trans calm_close_channel).trans calm_pull_ended
  | accepted k hkind hlive hleft =>
    refine calm_retask htask ⟨rfl, rfl, rfl, rfl, rfl, rfl, id, fun _ hlive => .inl hlive,
      fun _ => rfl, id, rfl, fun _ => .inr ?_, fun _ => Nat.le_refl _⟩
    obtain ⟨c, hcard⟩ := hs.push_card htask hkind
    exact ⟨c, hcard, hcard⟩
  | small k left hkind hlive hleft =>
    exact calm_retask htask ⟨rfl, rfl, rfl, rfl, rfl, rfl, id, fun _ hlive => .inl hlive,
      fun _ => rfl, id, rfl, fun _ => .inl ⟨left, hleft⟩, fun _ => Nat.le_refl _⟩
  | smallFailed k c hkind hlive hcard hleft =>
    have hdone : Calm (Exempt task (.smallFailed k)) s
        (s.updateTask h fun task => { task with left := some 0 }) :=
      calm_retask htask ⟨rfl, rfl, rfl, rfl, rfl, rfl, id, fun _ hlive => .inl hlive,
        fun _ => rfl, id, rfl, fun _ => .inl hleft, fun _ => Nat.le_refl _⟩
    split
    · exact hdone.trans (calm_update_card fun _ _ => calm_finish_oldest)
    · exact hdone.trans calm_apply_card
  | unset k => exact .refl s
  | check k c card hkind hlive hcard => exact calm_push_failed hcard htask hcard
  | done k c hkind hlive hcard => exact calm_push_done hcard htask hcard
  | failed k c hkind hlive hcard => exact calm_push_failed hcard htask hcard
  | serve k name => exact absurd rfl (hserve k name)
  | dropped k hkind hlive | received k hkind hlive | lost k hkind hlive =>
    exact calm_source_ended htask (by simp [hkind])
  | held k hkind hlive =>
    exact calm_retask htask ⟨rfl, rfl, rfl, rfl, rfl, rfl, id, fun _ hlive => .inl hlive,
      fun _ => rfl, id, rfl, .inl, fun hdead => by simp [hlive] at hdead⟩
  | fetch k => exact .refl s
  | forget k hkind hdeferred | wake k hkind hdeferred =>
    exact calm_retask htask ⟨rfl, rfl, rfl, rfl, rfl, rfl, id, fun _ hlive => .inl hlive,
      fun _ => rfl, id, rfl, .inl, fun _ => Nat.sub_le _ _⟩
  | started k name hlive hkind => exact calm_handle_started htask hkind

end Moving

/-- What is left of the desk once a file of a push is served: the file has started under the flags
of the push, and it is attached to the card. -/
structure Joins (s next : ControlDesk) (h : Nat) (task : EngineTask) (push c : Nat) : Prop where
  tasks : ∀ k : Nat, next.tasks[k]? =
    (s.tasks[k]?).map fun found => if h = k then found.serve push else found
  flags : next.flags = s.flags
  channels : next.taskControls = s.taskControls
  parents : ∀ job, job ≠ task.job → next.pendingChildren job = s.pendingChildren job
  bound : ∀ job, job ≠ task.job → next.engineToCard job = s.engineToCard job
  cards : ∀ d : Nat, Option.Rel (CalmCard False) s.cards[d]? next.cards[d]?
  attached : ∀ card, next.cards[c]? = some card →
    if card.kind = .batchPush then next.pendingChildren task.job = some c
    else next.engineToCard task.job = some c ∨ card.Ended

/-- What is left of the desk once a file of no push is served: it has a new card. -/
structure Opens (s next : ControlDesk) (h : Nat) (task : EngineTask) : Prop where
  tasks : ∀ k : Nat, next.tasks[k]? = (s.tasks[k]?).map fun found =>
    if h = k then (found.serve h).assign s.cards.length else found
  flags : next.flags = s.flags
  channels : next.taskControls = s.taskControls
  parents : next.pendingChildren = s.pendingChildren
  bound : ∀ job, job ≠ task.job → next.engineToCard job = s.engineToCard job
  cards : ∀ (d : Nat) (card : ControlCard), s.cards[d]? = some card → next.cards[d]? = some card
  added : ∀ (d : Nat) (card : ControlCard), next.cards[d]? = some card →
    s.cards[d]? = some card ∨ (d = s.cards.length ∧ card.children = [])

section Serving

variable {s next : ControlDesk} {c h push : Nat} {task : EngineTask} {card : ControlCard}

theorem serve_joins (name : String) (hoffer : task.offer = some push) (hcard : task.card = some c)
    (hfound : s.cards[c]? = some card)
    (hattach : s.attachTo card.peer = some (c, decide (card.kind = .batchPush))) :
    Joins s ((s.updateTask h (EngineTask.serve push)).handleServed h task name) h task push c := by
  have hthere : (s.updateTask h (EngineTask.serve push)).cards[c]? = some card := hfound
  have hattach' : (s.updateTask h (EngineTask.serve push)).attachTo card.peer =
      some (c, decide (card.kind = .batchPush)) := hattach
  unfold handleServed
  rw [hoffer, hcard]
  dsimp only
  rw [Option.bind_some, hthere, Option.map_some, Option.getD_some, hattach']
  by_cases hbatch : card.kind = .batchPush
  · rw [decide_eq_true hbatch]
    dsimp only
    have hcalm : Calm (fun _ => False) (s.updateTask h (EngineTask.serve push))
        ((s.updateTask h (EngineTask.serve push)).updateCard c
          (ControlCard.attach name task.job)) :=
      calm_update_card fun _ _ => calm_attach
    refine ⟨fun _ => task_update_task, rfl, rfl, fun job hne => Function.update_of_ne hne ..,
      fun _ _ => rfl, hcalm.cards, fun after hafter => ?_⟩
    have heq := card_update_card (s := s.updateTask h (EngineTask.serve push)) (c := c) (k := c)
      (f := ControlCard.attach name task.job)
    rw [hthere, Option.map_some, if_pos rfl] at heq
    obtain rfl := Option.some.inj (hafter.symm.trans heq)
    show if card.kind = .batchPush then _ else _
    rw [if_pos hbatch]
    exact Function.update_self ..
  · rw [decide_eq_false hbatch]
    dsimp only
    have hcalm : Calm (fun _ => False) (s.updateTask h (EngineTask.serve push))
        ((s.updateTask h (EngineTask.serve push)).updateCard c fun card => card.apply .started) :=
      calm_apply_card
    rw [hthere]
    by_cases hended : card.Ended
    · rw [if_neg (by simp [hended])]
      refine ⟨fun _ => task_update_task, rfl, rfl, fun _ _ => rfl, fun _ _ => rfl,
        fun _ => option_rel_refl (CalmCard.refl _) _, fun after hafter => ?_⟩
      obtain rfl := Option.some.inj (hafter.symm.trans hthere)
      rw [if_neg hbatch]
      exact .inr hended
    · rw [if_pos (by simp [hended])]
      refine ⟨fun _ => task_update_task, rfl, rfl, fun _ _ => rfl,
        fun job hne => Function.update_of_ne hne .., hcalm.cards, fun after hafter => ?_⟩
      have heq := card_update_card (s := s.updateTask h (EngineTask.serve push)) (c := c) (k := c)
        (f := fun card => card.apply .started)
      rw [hthere, Option.map_some, if_pos rfl] at heq
      obtain rfl := Option.some.inj (hafter.symm.trans heq)
      show if card.kind = .batchPush then _ else _
      rw [if_neg hbatch]
      exact .inl (Function.update_self ..)

/-- What a new card for a served job leaves as it is. -/
theorem new_served_frame (s : ControlDesk) (peer job : Nat) :
    (s.newServed peer job).tasks = s.tasks ∧ (s.newServed peer job).flags = s.flags ∧
      (s.newServed peer job).taskControls = s.taskControls ∧
      (s.newServed peer job).pendingChildren = s.pendingChildren ∧
      (∀ id, id ≠ job → (s.newServed peer job).engineToCard id = s.engineToCard id) ∧
      ∀ (d : Nat) (card : ControlCard), (s.newServed peer job).cards[d]? = some card →
        s.cards[d]? = some card ∨ (d = s.cards.length ∧ card.children = []) := by
  have hcards : ∀ (f g : ControlCard → ControlCard), (∀ card, (f card).children = card.children) →
      (∀ card, (g card).children = card.children) → ∀ (d : Nat) (card : ControlCard),
      (((s.cards ++ [ControlCard.new .served peer]).modify s.cards.length f).modify
        s.cards.length g)[d]? = some card →
          s.cards[d]? = some card ∨ (d = s.cards.length ∧ card.children = []) := by
    intro f g hf hg d card hcard
    rw [List.getElem?_modify, List.getElem?_modify, Option.map_eq_map, Option.map_eq_map,
      Option.map_map] at hcard
    obtain ⟨before, hbefore, rfl⟩ := Option.map_eq_some_iff.mp hcard
    rcases concat_cases hbefore with hold | ⟨rfl, rfl⟩
    · have hne : s.cards.length ≠ d := fun heq => by
        rw [← heq, List.getElem?_eq_none (Nat.le_refl _)] at hold
        cases hold
      simpa [hne] using Or.inl hold
    · refine .inr ⟨rfl, ?_⟩
      simp only [Function.comp_apply, if_true, hg, hf]
      rfl
  unfold newServed bindFirst
  dsimp only
  split
  · exact ⟨rfl, rfl, rfl, rfl, fun id hne => Function.update_of_ne hne ..,
      hcards (fun card => { card with engineId := some job }) (fun card => card.apply .started)
        (fun _ => rfl) fun _ => rfl⟩
  · refine ⟨rfl, rfl, rfl, rfl, fun _ _ => rfl, fun d card hcard => ?_⟩
    refine hcards id (fun card => card.apply .started) (fun _ => rfl) (fun _ => rfl) d card ?_
    rw [List.modify_id]
    exact hcard

/-- The cards that were there are left as they are. -/
theorem new_served_cards {peer job : Nat} {d : Nat} {card : ControlCard}
    (h : s.cards[d]? = some card) : (s.newServed peer job).cards[d]? = some card := by
  have hne : s.cards.length ≠ d := fun heq => by
    rw [← heq, List.getElem?_eq_none (Nat.le_refl _)] at h
    cases h
  unfold newServed bindFirst
  dsimp only
  split
  · rw [card_update_card]
    show Option.map _ ((s.cards ++ [_]).modify _ _)[d]? = _
    rw [List.getElem?_modify, concat_old h]
    simp [hne]
  · rw [card_update_card]
    show Option.map _ (s.cards ++ [_])[d]? = _
    rw [concat_old h, Option.map_some, if_neg hne]

theorem serve_opens (name : String) (hs : s.Wired) (htask : s.tasks[h]? = some task) (hnew : task.started = false)
    (hoffer : task.offer = none) :
    Opens s ((s.updateTask h (EngineTask.serve h)).handleServed h task name) h task := by
  have hunbound : (s.updateTask h (EngineTask.serve h)).engineToCard task.job = none := by
    cases hfound : s.engineToCard task.job with
    | none => exact hfound
    | some c => exact absurd (hs.bound task.job c hfound) (hs.new_job htask hnew)
  unfold handleServed
  rw [hoffer]
  dsimp only
  rw [hunbound]
  dsimp only
  rw [update_task_twice]
  obtain ⟨htasks, hflags, hchannels, hparents, hbound, hadded⟩ := new_served_frame
    (s.updateTask h (EngineTask.assign s.cards.length ∘ EngineTask.serve h)) 0 task.job
  refine ⟨fun k => ?_, hflags, hchannels, hparents, hbound, fun d card hcard =>
    new_served_cards hcard, hadded⟩
  show (newServed (s.updateTask h (EngineTask.assign s.cards.length ∘ EngineTask.serve h)) 0
    task.job).tasks[k]? = _
  rw [htasks]
  exact task_update_task

end Serving

section Joining

variable {s next : ControlDesk} {c d h push : Nat} {task owner : EngineTask}

/-- A desk whose tasks keep their cards has nobody behind a card only if it had nobody before. -/
theorem idle_of_tasks
    (htasks : ∀ (k : Nat) (before : EngineTask), s.tasks[k]? = some before →
      before.card = some d → ∃ after, next.tasks[k]? = some after ∧ after.card = some d)
    (hidle : next.Idle d) : s.Idle d := by
  intro task hmem hcard
  obtain ⟨k, hk⟩ := List.mem_iff_getElem?.mp hmem
  obtain ⟨after, hafter, hbehind⟩ := htasks k task hk hcard
  exact hidle after (List.mem_of_getElem? hafter) hbehind

theorem Joins.idle_iff (hjoin : Joins s next h task push c) : next.Idle d ↔ s.Idle d := by
  constructor
  · refine idle_of_tasks fun k before hbefore hcard => ?_
    refine ⟨_, by rw [hjoin.tasks, hbefore, Option.map_some], ?_⟩
    split
    · exact hcard
    · exact hcard
  · refine idle_of_tasks fun k after hafter hcard => ?_
    rw [hjoin.tasks, Option.map_eq_some_iff] at hafter
    obtain ⟨before, hbefore, rfl⟩ := hafter
    refine ⟨before, hbefore, ?_⟩
    split at hcard
    · exact hcard
    · exact hcard

/-- A task after a file joined is that file, or it was there before. -/
theorem Joins.task_cases (hjoin : Joins s next h task push c) (htask : s.tasks[h]? = some task)
    {k : Nat} {after : EngineTask} (hafter : next.tasks[k]? = some after) :
    (k = h ∧ after = task.serve push) ∨ (k ≠ h ∧ s.tasks[k]? = some after) := by
  rw [hjoin.tasks, Option.map_eq_some_iff] at hafter
  obtain ⟨before, hbefore, rfl⟩ := hafter
  by_cases heq : h = k
  · subst heq
    obtain rfl := Option.some.inj (hbefore.symm.trans htask)
    exact .inl ⟨rfl, if_pos rfl⟩
  · exact .inr ⟨fun h' => heq h'.symm, by rw [if_neg heq]; exact hbefore⟩

/-- A push that is held holds the file that joins it. -/
theorem HeldBy.joins (hs : s.Wired) (htask : s.tasks[h]? = some task) (hkind : task.kind = .source)
    (hoffer : task.offer = some push) (howner : s.tasks[push]? = some owner)
    (hlive : owner.live = true) (hjoin : Joins s next h task push c) (hheld : s.HeldBy d) :
    next.HeldBy d := by
  obtain ⟨card, hcard, hmore, htasks⟩ := hheld
  obtain ⟨after, hafter, hkept⟩ := option_rel_on (hjoin.cards d) hcard
  refine ⟨after, hafter, hmore.keep hjoin.idle_iff.mp hkept.kind hkept.no_flag, ?_⟩
  intro k found hfound hbehind
  rcases hjoin.task_cases htask hfound with ⟨rfl, rfl⟩ | ⟨-, hold⟩
  · have hsame : task.card = owner.card := hs.served_card htask howner hkind hoffer
    have hpush := htasks push owner howner (hsame ▸ hbehind)
    obtain ⟨hownerKind, hgate⟩ := hs.offer_push htask hkind hoffer howner
    unfold Halted at hpush
    rw [hownerKind] at hpush
    unfold Halted
    rw [show (task.serve push).kind = .source from hkind]
    refine .inl ?_
    rw [hjoin.flags]
    exact hgate ▸ (hpush hlive).2
  · exact (htasks k found hold hbehind).same_flags (by rw [hjoin.flags])

/-- A push that is told to stop has the file stop that joins it. -/
theorem CancelBy.joins (hs : s.Wired) (htask : s.tasks[h]? = some task)
    (hkind : task.kind = .source) (hoffer : task.offer = some push)
    (howner : s.tasks[push]? = some owner) (hlive : owner.live = true)
    (hjoin : Joins s next h task push c) (hcancelled : s.CancelBy d) : next.CancelBy d := by
  obtain ⟨card, hcard, hrest⟩ := hcancelled
  obtain ⟨after, hafter, hkept⟩ := option_rel_on (hjoin.cards d) hcard
  have hflag : after.flag = card.flag := hkept.flag.resolve_right fun hcleared => hcleared.1
  refine ⟨after, hafter, ?_⟩
  rcases hrest with ⟨hset, hpush, hstuck⟩ | ⟨hnone, hmore, hended, hdoomed⟩
  · refine .inl ⟨hflag.trans hset, hkept.kind.symm ▸ hpush, fun k found hfound hbehind hnow => ?_⟩
    rcases hjoin.task_cases htask hfound with ⟨rfl, rfl⟩ | ⟨-, hold⟩
    · have hsource : (task.serve push).kind = .source := hkind
      exact absurd (hsource.symm.trans hnow.1) (by simp)
    · obtain ⟨hpushKind, hgo, hlarge, hpaused, hleft⟩ := hnow
      rw [hjoin.flags] at hpaused
      exact hstuck k found hold hbehind ⟨hpushKind, hgo, hlarge, hpaused, hleft⟩
  · refine .inr ⟨hflag.trans hnone, hmore.keep hjoin.idle_iff.mp hkept.kind hkept.no_flag,
      hended.imp hjoin.idle_iff.mpr hkept.ended, fun k found hfound hbehind => ?_⟩
    rcases hjoin.task_cases htask hfound with ⟨rfl, rfl⟩ | ⟨-, hold⟩
    · -- no push goes on behind the card any more
      have hsame : task.card = owner.card := hs.served_card htask howner hkind hoffer
      have hdead := hdoomed push owner howner (hsame ▸ hbehind)
      unfold Doomed at hdead
      rw [(hs.offer_push htask hkind hoffer howner).1] at hdead
      rw [show owner.live = false from hdead] at hlive
      cases hlive
    · exact (hdoomed k found hold hbehind).same_flags (by rw [hjoin.flags])

theorem Tied.joins (hs : s.Tied) (hwired : next.Wired) (htask : s.tasks[h]? = some task)
    (hcard : task.card = some c) (hjoin : Joins s next h task push c) : next.Tied := by
  refine ⟨hwired, ?_, ?_, ?_⟩
  · intro job k found hchannel hfound
    rw [hjoin.channels] at hchannel
    rcases hjoin.task_cases htask hfound with ⟨rfl, rfl⟩ | ⟨-, hold⟩
    · exact hs.heard job k task hchannel htask
    · exact hs.heard job k found hchannel hold
  · intro k found d card hfound hkind hlive hoffer hbehind hthere
    rcases hjoin.task_cases htask hfound with ⟨rfl, rfl⟩ | ⟨hne, hold⟩
    · obtain rfl := Option.some.inj (hcard.symm.trans hbehind)
      exact hjoin.attached card hthere
    · have hjob : found.job ≠ task.job := fun heq => hne (hs.wired.apart k h found task hold htask heq)
      obtain ⟨before, hbefore, hkept⟩ := option_rel_back (hjoin.cards d) hthere
      have hattached := hs.attached k found d before hold hkind hlive hoffer hbehind hbefore
      rw [hkept.kind, hjoin.parents found.job hjob, hjoin.bound found.job hjob]
      split
      · next hbatch => rwa [if_pos hbatch] at hattached
      · next hsingle =>
        rw [if_neg hsingle] at hattached
        exact hattached.imp_right hkept.ended
  · intro d card hthere
    obtain ⟨before, hbefore, hkept⟩ := option_rel_back (hjoin.cards d) hthere
    exact hkept.distinct (hs.distinct d before hbefore)

/-- A task after a file got its card is that file, or it was there before. -/
theorem Opens.task_cases (hopen : Opens s next h task) (htask : s.tasks[h]? = some task) {k : Nat}
    {after : EngineTask} (hafter : next.tasks[k]? = some after) :
    (k = h ∧ after = (task.serve h).assign s.cards.length) ∨ (k ≠ h ∧ s.tasks[k]? = some after) := by
  rw [hopen.tasks, Option.map_eq_some_iff] at hafter
  obtain ⟨before, hbefore, rfl⟩ := hafter
  by_cases heq : h = k
  · subst heq
    obtain rfl := Option.some.inj (hbefore.symm.trans htask)
    exact .inl ⟨rfl, if_pos rfl⟩
  · exact .inr ⟨fun h' => heq h'.symm, by rw [if_neg heq]; exact hbefore⟩

theorem Opens.elsewhere (htask : s.tasks[h]? = some task) (hcard : task.card = none)
    (hopen : Opens s next h task) : Elsewhere (· = s.cards.length) s next := by
  refine ⟨fun k found d hfound hbehind hd => ?_, fun d card _ hthere => hopen.cards d card hthere,
    fun d _ => idle_of_tasks fun k before hbefore hbehind => ?_⟩
  · rcases hopen.task_cases htask hfound with ⟨rfl, rfl⟩ | ⟨-, hold⟩
    · exact absurd (Option.some.inj hbehind).symm hd
    · exact ⟨hold, by rw [hopen.flags]⟩
  · have hne : h ≠ k := by
      rintro rfl
      obtain rfl := Option.some.inj (hbefore.symm.trans htask)
      rw [hcard] at hbehind
      cases hbehind
    exact ⟨before, by rw [hopen.tasks, hbefore, Option.map_some, if_neg hne], hbehind⟩

theorem Tied.opens (hs : s.Tied) (hwired : next.Wired) (htask : s.tasks[h]? = some task)
    (hoffer : task.offer = none) (hopen : Opens s next h task) : next.Tied := by
  refine ⟨hwired, ?_, ?_, ?_⟩
  · intro job k found hchannel hfound
    rw [hopen.channels] at hchannel
    rcases hopen.task_cases htask hfound with ⟨rfl, rfl⟩ | ⟨-, hold⟩
    · exact hs.heard job k task hchannel htask
    · exact hs.heard job k found hchannel hold
  · intro k found d card hfound hkind hlive hsome hbehind hthere
    rcases hopen.task_cases htask hfound with ⟨rfl, rfl⟩ | ⟨hne, hold⟩
    · exact absurd hoffer hsome
    · have hjob : found.job ≠ task.job := fun heq => hne (hs.wired.apart k h found task hold htask heq)
      rw [hopen.parents, hopen.bound found.job hjob]
      rcases hopen.added d card hthere with hbefore | ⟨rfl, -⟩
      · exact hs.attached k found d card hold hkind hlive hsome hbehind hbefore
      · exact absurd hbehind (hs.wired.idle_next found (List.mem_of_getElem? hold))
  · intro d card hthere
    rcases hopen.added d card hthere with hbefore | ⟨-, hnil⟩
    · exact hs.distinct d card hbefore
    · rw [hnil]
      intro i j first second hfirst
      simp at hfirst

end Joining

/-- A request of `transfer_action` is added to the channel of a download. -/
def enqueue (action : TaskControl) (task : EngineTask) : EngineTask :=
  { task with queue := task.queue ++ [action] }

/-- What an answer `Ok` means: the flags are those of tasks that go on behind the card, or the
channel is that of the download behind it. There are no flags only for active children of which no
job is known. -/
inductive Reached (s : ControlDesk) (c : Nat) (card : ControlCard) (action : TaskControl) :
    ControlDesk → List ControlEvent → Prop where
  | gates (gates : List Nat) :
      (∀ gate ∈ gates, ∃ (k : Nat) (task : EngineTask), s.tasks[k]? = some task ∧
        task.gate = gate ∧ task.card = some c ∧ task.live = true ∧
          (task.kind = .source ∨ (task.kind = .push ∧ task.large = true))) →
      (gates = [] → card.activeChildren ≠ [] ∧ s.targetGates card = []) →
      Reached s c card action
        ((s.signal gates action).updateCard c fun card => card.apply action.event)
        (s.touched c gates ++ [.answered c action])
  | channel (k : Nat) (task : EngineTask) : s.tasks[k]? = some task → task.card = some c →
      task.kind = .pull → task.live = true → s.taskControls task.job = some k →
      card.engineId ≠ none →
      Reached s c card action
        ((s.updateTask k (enqueue action)).updateCard c fun card => card.apply action.event)
        [.controlled c task.card, .answered c action]

section Acting

variable {s next : ControlDesk} {c d h : Nat} {task : EngineTask} {card : ControlCard}
  {action : TaskControl} {emitted : List ControlEvent}

/-- The id of an existing card is that of no task. -/
theorem Wired.no_card_job (hs : s.Wired) (hcard : s.cards[c]? = some card)
    (htask : s.tasks[h]? = some task) : task.job ≠ cardId c :=
  hs.offCards task (List.mem_of_getElem? htask) c (List.getElem?_eq_some_iff.mp hcard).1

/-- A task that goes by the id which a card is translated to is behind the card. -/
theorem Wired.translated (hs : s.Wired) (hcard : s.cards[c]? = some card)
    (htask : s.tasks[h]? = some task) (hjob : task.job = card.engineId.getD (cardId c)) :
    task.card = some c ∧ card.engineId ≠ none := by
  cases hengine : card.engineId with
  | none =>
    rw [hengine] at hjob
    exact absurd hjob (hs.no_card_job hcard htask)
  | some job =>
    rw [hengine] at hjob
    have hbacked := hs.named c card hcard job (by simp [ControlCard.names, hengine])
    exact ⟨hs.job_card hbacked htask hjob, by simp⟩

/-- The card that an id of a card without engine id leads to is that card. -/
theorem Wired.translated_card (hs : s.Wired) (hcard : s.cards[c]? = some card) {row : ControlCard}
    (hrow : s.cardOfId (card.engineId.getD (cardId c)) = some row) : row = card := by
  unfold cardOfId at hrow
  cases hengine : card.engineId with
  | none =>
    rw [hengine] at hrow
    simp only [Option.getD_none, cardId, Nat.le_add_right, if_true, Nat.add_sub_cancel_left] at hrow
    exact Option.some.inj (hrow.symm.trans hcard)
  | some job =>
    rw [hengine, Option.getD_some] at hrow
    obtain ⟨hle, hrow⟩ := of_when hrow
    -- an engine id is no id of a card
    obtain ⟨k, found, hfound, hjob, -⟩ :=
      hs.named c card hcard job (by simp [ControlCard.names, hengine])
    refine absurd ?_ (hs.no_card_job hrow hfound)
    rw [hjob]
    unfold cardId
    omega

theorem Wired.route_reached (hs : s.Wired) (hcard : s.cards[c]? = some card)
    (hroute : s.route c card action = some (next, emitted)) :
    Reached s c card action next emitted := by
  unfold ControlDesk.route at hroute
  dsimp only at hroute
  split at hroute
  · next row hrow =>
    obtain ⟨hof, hactive⟩ := Option.filter_eq_some_iff.mp hrow
    have hactive : row.activeChildren ≠ [] := by simpa using hactive
    obtain rfl := hs.translated_card hcard hof
    obtain ⟨rfl, rfl⟩ := answer_inj hroute
    refine .gates (s.targetGates row) (fun gate hgate => ?_) fun hnil => ⟨hactive, hnil⟩
    obtain ⟨job, hjob, hfound⟩ := List.mem_flatMap.mp hgate
    have hsome : s.senderGate job = some gate ∨ s.pushGate job = some gate := by
      simpa [Option.mem_toList, eq_comm] using hfound
    obtain ⟨k, found, hk, hsame, hgate, hlive, hkind⟩ := gate_found hsome
    have hnames : job ∈ row.names := by
      unfold targets at hjob
      unfold ControlCard.names ControlCard.activeChildren at *
      rcases List.mem_append.mp hjob with hjob | hjob
      · obtain ⟨child, hmem, hchild⟩ := List.mem_filterMap.mp hjob
        exact List.mem_append_left _ (List.mem_append_right _
          (List.mem_filterMap.mpr ⟨child, (List.mem_filter.mp hmem).1, hchild⟩))
      · exact List.mem_append_right _ hjob
    exact ⟨k, found, hk, hgate, hs.job_card (hs.named c row hcard job hnames) hk hsame, hlive, hkind⟩
  · obtain ⟨-, hroute⟩ := of_unless hroute
    split at hroute
    · next gate hgate =>
      obtain ⟨rfl, rfl⟩ := answer_inj hroute
      have hsome : s.senderGate (card.engineId.getD (cardId c)) = some gate ∨
          s.pushGate (card.engineId.getD (cardId c)) = some gate := by
        rcases Option.or_eq_some_iff.mp hgate with hsender | ⟨-, hpush⟩
        · exact .inl hsender
        · exact .inr hpush
      obtain ⟨k, found, hk, hsame, hof, hlive, hkind⟩ := gate_found hsome
      refine .gates [gate] (fun other hother => ?_) fun hnil => by simp at hnil
      obtain rfl := List.mem_singleton.mp hother
      exact ⟨k, found, hk, hof, (hs.translated hcard hk hsame).1, hlive, hkind⟩
    · split at hroute
      · cases hroute
      · next place hchannel =>
        split at hroute
        · cases hroute
        · next found hfound =>
          obtain ⟨hmeets, rfl, rfl⟩ := when_answer hroute
          obtain ⟨other, hother, hjob, hpull⟩ := hs.channel _ _ hchannel
          obtain rfl := Option.some.inj (hfound.symm.trans hother)
          obtain ⟨hbehind, hbound⟩ := hs.translated hcard hfound hjob
          exact .channel place found hfound hbehind hpull hmeets.1 (hjob ▸ hchannel) hbound

end Acting

section Answering

variable {s next : ControlDesk} {c d h k : Nat} {task found : EngineTask} {card : ControlCard}
  {action : TaskControl} {emitted : List ControlEvent}

/-- What is added to a channel is read after what is there. -/
theorem drain_append (waiting : Bool) (queue : List TaskControl) (action : TaskControl) :
    drain waiting (queue ++ [action]) =
      (drain waiting queue).bind fun waiting => drain waiting [action] := by
  induction queue generalizing waiting with
  | nil => rfl
  | cons first rest ih =>
    rw [List.cons_append]
    cases waiting with
    | false =>
      cases first with
      | pause => exact ih true
      | resume => exact ih false
      | cancel => rfl
    | true =>
      cases first with
      | pause => exact ih false
      | resume => exact ih false
      | cancel => rfl

theorem signal_paused {gates : List Nat} {g : Nat} :
    ((s.signal gates action).flags g).paused =
      if g ∈ gates then
        match action with
        | .pause => true
        | .resume => false
        | .cancel => (s.flags g).paused
      else (s.flags g).paused := by
  show (if g ∈ gates then (s.flags g).signal action else s.flags g).paused = _
  split
  · cases action with
    | pause | resume | cancel => rfl
  · rfl

theorem signal_cancelled {gates : List Nat} {g : Nat} :
    ((s.signal gates action).flags g).cancelled =
      if g ∈ gates ∧ action = .cancel then true else (s.flags g).cancelled := by
  show (if g ∈ gates then (s.flags g).signal action else s.flags g).cancelled = _
  by_cases hmem : g ∈ gates
  · rw [if_pos hmem]
    cases action with
    | pause => simp [ControlFlags.signal]
    | resume => simp [ControlFlags.signal]
    | cancel => simp [ControlFlags.signal, hmem]
  · simp [hmem]

/-- A file that waits to be served does nothing. -/
theorem Wired.waiting_source (hs : s.Wired) (htask : s.tasks[h]? = some task)
    (hkind : task.kind = .source) (hnew : task.started = false) :
    task.live = false ∧ task.deferred = 0 :=
  ((hs.same_task htask).source hkind).2 hnew

/-- All that has begun behind a card whose flags are reached looks at these flags. -/
theorem Wired.all_gated (hs : s.Wired) (hcard : s.cards[c]? = some card)
    (hfound : s.tasks[k]? = some found) (hbehind : found.card = some c) (hlive : found.live = true)
    (hkind : found.kind = .source ∨ (found.kind = .push ∧ found.large = true))
    (htask : s.tasks[h]? = some task) (hbehind' : task.card = some c) :
    (task.gate = found.gate ∧ task.kind ≠ .pull ∧ (task.kind = .push → task.large = true)) ∨
      (task.kind = .source ∧ task.live = false ∧ task.deferred = 0) := by
  have hallowed := hs.kind_of_task hfound hbehind hcard
  have hstarted : found.kind = .source → found.started = true :=
    fun hsource => hs.started_of_live hfound hsource (.inl hlive)
  by_cases hserved : card.kind = .served
  · obtain rfl := hs.single h k task found c card htask hfound hbehind' hbehind hcard
      (.inr (.inl hserved))
    obtain rfl := Option.some.inj (htask.symm.trans hfound)
    refine .inl ⟨rfl, ?_, fun hpush => ?_⟩
    · rcases hkind with hsource | ⟨hpush, -⟩
      · simp [hsource]
      · simp [hpush]
    · rcases hkind with hsource | ⟨-, hlarge⟩
      · rw [hsource] at hpush
        cases hpush
      · exact hlarge
  · -- the card is that of a push
    have hpushCard : card.kind = .push ∨ card.kind = .batchPush := by
      rcases hkind with hsource | ⟨hpush, -⟩
      · rw [hsource] at hallowed
        cases hoffer : found.offer with
        | none =>
          rw [hoffer] at hallowed
          exact absurd hallowed hserved
        | some push =>
          rw [hoffer] at hallowed
          exact hallowed
      · rw [hpush] at hallowed
        exact hallowed
    have hallowed' := hs.kind_of_task htask hbehind' hcard
    cases htaskKind : task.kind with
    | pull =>
      rw [htaskKind] at hallowed'
      rcases hpushCard with hone | hone <;> simp [hone] at hallowed'
    | push =>
      have hgate : task.gate = found.gate := hs.push_gate htask hfound hbehind' hbehind hcard
        hpushCard (fun hsource => by rw [htaskKind] at hsource; cases hsource) hstarted
      refine .inl ⟨hgate, by simp, fun _ => ?_⟩
      -- the push that the flags belong to is this one
      rcases hkind with hsource | ⟨hpush, hlarge⟩
      · have hshape := hs.shape k found hfound
        unfold Shape at hshape
        rw [hsource] at hshape
        cases hoffer : found.offer with
        | none =>
          rw [hsource, hoffer] at hallowed
          exact absurd hallowed hserved
        | some push =>
          rw [hoffer] at hshape
          obtain ⟨owner, howner, hownerKind, hlarge, hsame, -⟩ := hshape
          obtain rfl := hs.single h push task owner c card htask howner hbehind'
            (hsame ▸ hbehind) hcard (.inr (.inr ⟨htaskKind, hownerKind⟩))
          obtain rfl := Option.some.inj (htask.symm.trans howner)
          exact hlarge
      · obtain rfl := hs.single h k task found c card htask hfound hbehind' hbehind hcard
          (.inr (.inr ⟨htaskKind, hpush⟩))
        obtain rfl := Option.some.inj (htask.symm.trans hfound)
        exact hlarge
    | source =>
      cases hnew : task.started with
      | false =>
        obtain ⟨hdead, hnone⟩ := hs.waiting_source htask htaskKind hnew
        exact .inr ⟨rfl, hdead, hnone⟩
      | true =>
        exact .inl ⟨hs.push_gate htask hfound hbehind' hbehind hcard hpushCard
          (fun _ => hnew) hstarted, by simp, fun hpush => by cases hpush⟩

/-- A card that is reached without flags is one of several files. -/
theorem Wired.childed_kind (hs : s.Wired) (hcard : s.cards[c]? = some card)
    (hactive : card.activeChildren ≠ []) :
    card.kind = .batchDownload ∨ card.kind = .batchPush := by
  by_cases hdownload : card.kind = .batchDownload
  · exact .inl hdownload
  · by_cases hpush : card.kind = .batchPush
    · exact .inr hpush
    · refine absurd ?_ hactive
      unfold ControlCard.activeChildren
      rw [(hs.plain c card hcard).childless hdownload hpush]
      rfl

/-- The download that is reached is the only task behind its card. -/
theorem Wired.channel_kind (hs : s.Wired) (hcard : s.cards[c]? = some card)
    (htask : s.tasks[h]? = some task) (hbehind : task.card = some c) (hkind : task.kind = .pull)
    (hbound : card.engineId ≠ none) : card.kind = .download := by
  have hallowed := hs.kind_of_task htask hbehind hcard
  rw [hkind] at hallowed
  rcases hallowed with hone | hone | hone
  · exact hone
  · exact absurd ((hs.plain c card hcard).unbound (.inl hone)) hbound
  · exact absurd ((hs.plain c card hcard).unbound (.inr (.inl hone))) hbound

theorem not_idle (htask : s.tasks[h]? = some task) (hbehind : task.card = some c) : ¬ s.Idle c :=
  fun hidle => hidle task (List.mem_of_getElem? htask) hbehind

/-- What a card that goes on with flags is. -/
theorem Wired.gated_kind (hs : s.Wired) (hcard : s.cards[c]? = some card)
    (hfound : s.tasks[k]? = some found) (hbehind : found.card = some c)
    (hkind : found.kind = .source ∨ (found.kind = .push ∧ found.large = true)) :
    card.kind = .push ∨ card.kind = .batchPush ∨ card.kind = .served := by
  have hallowed := hs.kind_of_task hfound hbehind hcard
  rcases hkind with hsource | ⟨hpush, -⟩
  · rw [hsource] at hallowed
    cases hoffer : found.offer with
    | none =>
      rw [hoffer] at hallowed
      exact .inr (.inr hallowed)
    | some push =>
      rw [hoffer] at hallowed
      exact hallowed.imp_right .inl
  · rw [hpush] at hallowed
    exact hallowed.imp_right .inl

/-- Behind a card that somebody has worked for nothing begins, if it is not one of several files
that are downloaded. -/
theorem NoMore.busy (hkind : card.kind ≠ .batchDownload ∧ card.kind ≠ .folderDownload)
    (hbusy : ¬ s.Idle c) : s.NoMore c card := by
  unfold NoMore
  cases hone : card.kind with
  | download => exact hbusy
  | push | batchPush => exact .inl hbusy
  | served => trivial
  | batchDownload => exact absurd hone hkind.1
  | folderDownload => exact absurd hone hkind.2

/-- Behind the card of a push without a flag nothing begins. -/
theorem NoMore.unflagged (hkind : card.kind = .push ∨ card.kind = .batchPush ∨ card.kind = .served)
    (hflag : card.flag = none) : s.NoMore c card := by
  unfold NoMore
  rcases hkind with hone | hone | hone
  · rw [hone]
    exact .inr hflag
  · rw [hone]
    exact .inr hflag
  · rw [hone]
    trivial

theorem card_apply_here (ev : CardEvent) (hcard : s.cards[c]? = some card) :
    (s.updateCard c fun card => card.apply ev).cards[c]? = some (card.apply ev) := by
  rw [card_update_card, hcard, Option.map_some, if_pos rfl]

/-- A pause that is answered holds what is behind the card. -/
theorem Reached.pause_holds (hs : s.Wired) (hcard : s.cards[c]? = some card)
    (hreach : Reached s c card .pause next emitted) (hpause : s.PauseReaches c card) :
    next.HeldBy c := by
  have hguard := hpause
  unfold PauseReaches at hguard
  cases hreach with
  | gates gates hof hnil =>
    refine ⟨_, card_apply_here _ hcard, ?_⟩
    by_cases hgates : gates = []
    · obtain ⟨hactive, hnone⟩ := hnil hgates
      rcases hs.childed_kind hcard hactive with hone | hone
      · rw [hone] at hguard
        exact absurd hguard hactive
      · rw [hone] at hguard
        rcases hguard.2 rfl with hquiet | ⟨hflag, hstill⟩ | hsome
        · exact absurd hquiet hactive
        · refine ⟨?_, fun k task htask hbehind => ?_⟩
          · exact NoMore.unflagged (.inr (.inl hone)) hflag
          · obtain ⟨hdead, hheld⟩ := hstill task (List.mem_of_getElem? htask) hbehind
            have hallowed := hs.kind_of_task htask hbehind hcard
            unfold Halted
            cases hkind : task.kind with
            | pull =>
              rw [hkind, hone] at hallowed
              simp at hallowed
            | push =>
              intro hlive
              rw [hdead] at hlive
              cases hlive
            | source =>
              rcases hheld with hzero | hpaused
              · exact .inr ⟨hdead, hzero⟩
              · left
                show ((s.signal gates .pause).flags task.gate).paused = true
                rw [signal_paused, hgates]
                exact hpaused
        · exact absurd hnone hsome
    · obtain ⟨gate, hgate⟩ := List.exists_mem_of_ne_nil gates hgates
      obtain ⟨k, found, hfound, hsame, hbehind, hlive, hkind⟩ := hof gate hgate
      refine ⟨?_, fun h task htask hbehind' => ?_⟩
      · refine NoMore.busy ?_ (not_idle hfound hbehind)
        show card.kind ≠ .batchDownload ∧ card.kind ≠ .folderDownload
        rcases hs.gated_kind hcard hfound hbehind hkind with hone | hone | hone <;> simp [hone]
      · unfold Halted
        rcases hs.all_gated hcard hfound hbehind hlive hkind htask hbehind' with
          ⟨hone, hnot, hlarge⟩ | ⟨hsource, hdead, hzero⟩
        · have hpaused : ((s.signal gates .pause).flags task.gate).paused = true := by
            rw [signal_paused, if_pos (by rw [hone, hsame]; exact hgate)]
          cases htaskKind : task.kind with
          | pull => exact absurd htaskKind hnot
          | push => exact fun _ => ⟨hlarge htaskKind, hpaused⟩
          | source => exact .inl hpaused
        · rw [hsource]
          exact .inr ⟨hdead, hzero⟩
  | channel k task htask hbehind hkind hlive hchannel hbound =>
    have hone := hs.channel_kind hcard htask hbehind hkind hbound
    refine ⟨_, card_apply_here (s := s.updateTask k (enqueue .pause)) _ hcard, ?_, ?_⟩
    · have hbehind' : (enqueue .pause task).card = some c := hbehind
      refine NoMore.busy ?_ (not_idle (h := k) ?_ hbehind')
      · show card.kind ≠ .batchDownload ∧ card.kind ≠ .folderDownload
        simp [hone]
      show (s.updateTask k _).tasks[k]? = _
      rw [task_update_task, htask, Option.map_some, if_pos rfl]
    · intro h other hother hbehind'
      obtain ⟨before, hbefore, rfl⟩ := task_of_update_task hother
      have hbefore' : before.card = some c := by
        split at hbehind'
        · exact hbehind'
        · exact hbehind'
      obtain rfl := hs.single h k before task c card hbefore htask hbefore' hbehind hcard
        (.inl hone)
      obtain rfl := Option.some.inj (hbefore.symm.trans htask)
      rw [if_pos rfl]
      unfold Halted
      rw [show (enqueue .pause before).kind = .pull from hkind]
      intro _ hgoes
      rw [hone] at hguard
      have hdrain : drain before.waiting (before.queue ++ [.pause]) = some false := hgoes
      rw [drain_append] at hdrain
      cases hread : drain before.waiting before.queue with
      | none =>
        rw [hread] at hdrain
        cases hdrain
      | some waiting =>
        cases waiting with
        | false =>
          rw [hread] at hdrain
          cases hdrain
        | true => exact hguard before (List.mem_of_getElem? hbefore) hbefore' hread

end Answering

/-- The push of a card goes on as long as the card has a cancel flag. -/
def Flagged (s : ControlDesk) : Prop :=
  ∀ (h : Nat) (task : EngineTask) (c : Nat) (card : ControlCard), s.tasks[h]? = some task →
    task.kind = .push → task.card = some c → s.cards[c]? = some card →
      (task.live = true ↔ card.flag ≠ none)

section Breaking

variable {s next : ControlDesk} {c d h k : Nat} {task found : EngineTask} {card : ControlCard}
  {action : TaskControl} {emitted : List ControlEvent}

/-- The task of a download after an action was put in its channel. -/
theorem enqueued_task {k : Nat} (htask : s.tasks[k]? = some task) {h : Nat} {after : EngineTask}
    (hafter : (s.updateTask k (enqueue action)).tasks[h]? = some after) :
    (h = k ∧ after = enqueue action task) ∨ (h ≠ k ∧ s.tasks[h]? = some after) := by
  obtain ⟨before, hbefore, rfl⟩ := task_of_update_task hafter
  by_cases heq : k = h
  · subst heq
    obtain rfl := Option.some.inj (hbefore.symm.trans htask)
    exact .inl ⟨rfl, if_pos rfl⟩
  · exact .inr ⟨fun h' => heq h'.symm, by rw [if_neg heq]; exact hbefore⟩

/-- A cancel that is answered ends what is behind a card without a flag. -/
theorem Reached.cancel_breaks (hs : s.Tied) (hflagged : s.Flagged) (hcard : s.cards[c]? = some card)
    (hflag : card.flag = none) (hreach : Reached s c card .cancel next emitted)
    (hcancel : s.CancelReaches c card) : next.CancelBy c := by
  have hguard := hcancel
  unfold CancelReaches at hguard
  have hended : (card.apply TaskControl.cancel.event).Ended := ControlCard.failed_ended
  cases hreach with
  | gates gates hof hnil =>
    refine ⟨_, card_apply_here _ hcard, .inr ⟨hflag, ?_⟩⟩
    by_cases hgates : gates = []
    · obtain ⟨hactive, hnone⟩ := hnil hgates
      rcases hs.wired.childed_kind hcard hactive with hone | hone
      · rw [hone] at hguard
        exact absurd hguard.2 hactive
      · rw [hone] at hguard
        rcases hguard.2 rfl hflag with hquiet | hreleased | hsome
        · exact absurd hquiet hactive
        · refine ⟨NoMore.unflagged (.inr (.inl hone)) hflag, .inr hended, ?_⟩
          intro k task htask hbehind
          obtain ⟨hdead, hheld⟩ := hreleased task (List.mem_of_getElem? htask) hbehind
          have hallowed := hs.wired.kind_of_task htask hbehind hcard
          unfold Doomed
          cases hkind : task.kind with
          | pull =>
            rw [hkind, hone] at hallowed
            simp at hallowed
          | push => exact hdead
          | source =>
            refine .inr ⟨hdead, hheld.imp_right fun hresumed => ?_⟩
            show ((s.signal gates .cancel).flags task.gate).paused = false
            rw [signal_paused, hgates]
            exact hresumed
        · exact absurd hnone hsome
    · obtain ⟨gate, hgate⟩ := List.exists_mem_of_ne_nil gates hgates
      obtain ⟨k, found, hfound, hsame, hbehind, hlive, hkind⟩ := hof gate hgate
      have hcardKind := hs.wired.gated_kind hcard hfound hbehind hkind
      refine ⟨NoMore.unflagged hcardKind hflag, .inr hended, fun h task htask hbehind' => ?_⟩
      unfold Doomed
      rcases hs.wired.all_gated hcard hfound hbehind hlive hkind htask hbehind' with
        ⟨hone, hnot, -⟩ | ⟨hsource, hdead, hzero⟩
      · cases htaskKind : task.kind with
        | pull => exact absurd htaskKind hnot
        | push =>
          -- the push has ended, for its card has no flag
          cases htaskLive : task.live with
          | false => rfl
          | true =>
            exact absurd hflag
              ((hflagged h task c card htask htaskKind hbehind' hcard).mp htaskLive)
        | source =>
          left
          show ((s.signal gates .cancel).flags task.gate).cancelled = true
          rw [signal_cancelled, if_pos ⟨by rw [hone, hsame]; exact hgate, rfl⟩]
      · rw [hsource]
        exact .inr ⟨hdead, .inl hzero⟩
  | channel k task htask hbehind hkind hlive hchannel hbound =>
    have hone := hs.wired.channel_kind hcard htask hbehind hkind hbound
    have hafter : (s.updateTask k (enqueue .cancel)).tasks[k]? = some (enqueue .cancel task) := by
      rw [task_update_task, htask, Option.map_some, if_pos rfl]
    refine ⟨_, card_apply_here (s := s.updateTask k (enqueue .cancel)) _ hcard,
      .inr ⟨hflag, ?_, .inr hended, ?_⟩⟩
    · refine NoMore.busy ?_ (not_idle hafter hbehind)
      show card.kind ≠ .batchDownload ∧ card.kind ≠ .folderDownload
      simp [hone]
    · intro h other hother hbehind'
      rcases enqueued_task htask hother with ⟨rfl, rfl⟩ | ⟨hne, hold⟩
      · unfold Doomed
        rw [show (enqueue .cancel task).kind = .pull from hkind]
        intro _
        refine ⟨hs.heard task.job h task hchannel htask, ?_⟩
        show drain task.waiting (task.queue ++ [.cancel]) = none
        rw [drain_append]
        cases drain task.waiting task.queue with
        | none => rfl
        | some waiting =>
          cases waiting with
          | false => rfl
          | true => rfl
      · exact absurd (hs.wired.single h k other task c card hold htask hbehind' hbehind hcard
          (.inl hone)) hne

/-- An action leaves the other cards as they are. -/
theorem Reached.elsewhere (hs : s.Wired) (hreach : Reached s c card action next emitted) :
    Elsewhere (· = c) s next := by
  have hcards : ∀ (s : ControlDesk) (f : ControlCard → ControlCard) (d : Nat) (card : ControlCard),
      ¬ d = c → s.cards[d]? = some card → (s.updateCard c f).cards[d]? = some card := by
    intro s f d card hd hcard
    rw [card_update_card, hcard, Option.map_some, if_neg fun h => hd h.symm]
  cases hreach with
  | gates gates hof hnil =>
    refine ⟨fun k task d htask hbehind hd => ⟨htask, ?_⟩, fun d card hd hcard =>
      hcards (s.signal gates action) _ d card hd hcard, fun d _ hidle => hidle⟩
    show (if task.gate ∈ gates then _ else _) = _
    refine if_neg fun hmem => hd ?_
    obtain ⟨l, found, hfound, hsame, hfoundCard, -⟩ := hof task.gate hmem
    have heq := hs.same_card hfound htask hsame
    rw [hfoundCard, hbehind] at heq
    exact (Option.some.inj heq).symm
  | channel k task htask hbehind hkind hlive hchannel hbound =>
    refine ⟨fun l found d hfound hcard hd => ?_, fun d card hd hcard =>
      hcards (s.updateTask k (enqueue action)) _ d card hd hcard, fun d hd => ?_⟩
    · rcases enqueued_task htask hfound with ⟨rfl, rfl⟩ | ⟨-, hold⟩
      · exact absurd (Option.some.inj (hcard.symm.trans hbehind)) hd
      · exact ⟨hold, rfl⟩
    · refine idle_of_tasks fun l before hbefore hcard => ?_
      have hne : k ≠ l := by
        rintro rfl
        obtain rfl := Option.some.inj (hbefore.symm.trans htask)
        exact hd (Option.some.inj (hcard.symm.trans hbehind))
      refine ⟨before, ?_, hcard⟩
      show (s.updateTask k _).tasks[l]? = _
      rw [task_update_task, hbefore, Option.map_some, if_neg hne]

/-- A cancel does not let a card go that is held. -/
theorem Reached.cancel_holds (hcard : s.cards[c]? = some card)
    (hreach : Reached s c card .cancel next emitted) (hheld : s.HeldBy c) : next.HeldBy c := by
  obtain ⟨there, hthere, hmore, htasks⟩ := hheld
  obtain rfl := Option.some.inj (hthere.symm.trans hcard)
  cases hreach with
  | gates gates hof hnil =>
    refine ⟨_, card_apply_here _ hcard, hmore.keep (fun hidle => hidle) rfl id, ?_⟩
    intro k task htask hbehind
    have hhalted := htasks k task htask hbehind
    have hsame : ((s.signal gates .cancel).flags task.gate).paused =
        (s.flags task.gate).paused := by
      rw [signal_paused]
      split
      · rfl
      · rfl
    unfold Halted at hhalted ⊢
    rw [← hsame] at hhalted
    exact hhalted
  | channel k task htask hbehind hkind hlive hchannel hbound =>
    have hafter : (s.updateTask k (enqueue .cancel)).tasks[k]? = some (enqueue .cancel task) := by
      rw [task_update_task, htask, Option.map_some, if_pos rfl]
    refine ⟨_, card_apply_here (s := s.updateTask k (enqueue .cancel)) _ hcard,
      hmore.keep (fun hidle => absurd hidle (not_idle hafter hbehind)) rfl id, ?_⟩
    intro h other hother hbehind'
    rcases enqueued_task htask hother with ⟨rfl, rfl⟩ | ⟨-, hold⟩
    · have hhalted := htasks h task htask hbehind
      unfold Halted at hhalted ⊢
      rw [hkind] at hhalted
      rw [show (enqueue .cancel task).kind = .pull from hkind]
      intro _ hgoes
      have hdrain : drain task.waiting (task.queue ++ [.cancel]) = some false := hgoes
      rw [drain_append] at hdrain
      cases hread : drain task.waiting task.queue with
      | none =>
        rw [hread] at hdrain
        cases hdrain
      | some waiting =>
        rw [hread] at hdrain
        cases waiting with
        | false => cases hdrain
        | true => cases hdrain
    · exact htasks h other hold hbehind'

/-- No action brings back what a cancel has ended. -/
theorem Reached.stays_cancelled (hs : s.Wired) (hcard : s.cards[c]? = some card)
    (hreach : Reached s c card action next emitted)
    (hpause : action = .pause → s.PauseReaches c card) (hcancelled : s.CancelBy c) :
    next.CancelBy c := by
  obtain ⟨there, hthere, hrest⟩ := hcancelled
  obtain rfl := Option.some.inj (hthere.symm.trans hcard)
  cases hreach with
  | gates gates hof hnil =>
    refine ⟨_, card_apply_here _ hcard, ?_⟩
    rcases hrest with ⟨hset, hpush, hstuck⟩ | ⟨hnone, hmore, hended, hdoomed⟩
    · refine .inl ⟨hset, hpush, fun k task htask hbehind hnow => ?_⟩
      obtain ⟨hkind, hlive, hlarge, hpaused, hleft⟩ := hnow
      by_cases haction : action = .pause
      · -- a push that is told to stop does not write when it is paused
        have hguard := hpause haction
        unfold PauseReaches at hguard
        have hwriting : ¬ Writing task := by
          rcases hpush with hone | hone
          · rw [hone] at hguard
            exact hguard.1 hset task (List.mem_of_getElem? htask) hbehind
          · rw [hone] at hguard
            exact hguard.1 hset task (List.mem_of_getElem? htask) hbehind
        exact hwriting ⟨hkind, hlive, hlarge, hleft⟩
      · refine hstuck k task htask hbehind ⟨hkind, hlive, hlarge, ?_, hleft⟩
        have hpaused : ((s.signal gates action).flags task.gate).paused = true := hpaused
        rw [signal_paused] at hpaused
        split at hpaused
        · cases action with
          | pause => exact absurd rfl haction
          | resume => cases hpaused
          | cancel => exact hpaused
        · exact hpaused
    · refine .inr ⟨hnone, hmore.keep (fun hidle => hidle) rfl id,
        hended.imp_right (calm_apply (P := True)).ended, fun k task htask hbehind => ?_⟩
      have hdoom := hdoomed k task htask hbehind
      unfold Doomed at hdoom ⊢
      cases hkind : task.kind with
      | pull =>
        rw [hkind] at hdoom
        exact hdoom
      | push =>
        rw [hkind] at hdoom
        exact hdoom
      | source =>
        rw [hkind] at hdoom
        have hkept : (s.flags task.gate).cancelled = true →
            ((s.signal gates action).flags task.gate).cancelled = true := by
          intro hset
          rw [signal_cancelled]
          split
          · rfl
          · exact hset
        rcases hdoom with hset | ⟨hdead, hzero | hresumed⟩
        · exact .inl (hkept hset)
        · exact .inr ⟨hdead, .inl hzero⟩
        · by_cases hmem : task.gate ∈ gates ∧ action = .pause
          · -- the flags are those of a job that is served and told to stop
            obtain ⟨l, found, hfound, hsame, hbehind', hlive, hone⟩ := hof task.gate hmem.1
            have hfoundDoom := hdoomed l found hfound hbehind'
            unfold Doomed at hfoundDoom
            rcases hone with hsource | ⟨hpush, -⟩
            · rw [hsource] at hfoundDoom
              rcases hfoundDoom with hset | ⟨hdead', -⟩
              · exact .inl (hkept (hsame ▸ hset))
              · rw [hdead'] at hlive
                cases hlive
            · rw [hpush] at hfoundDoom
              rw [show found.live = false from hfoundDoom] at hlive
              cases hlive
          · refine .inr ⟨hdead, .inr ?_⟩
            show ((s.signal gates action).flags task.gate).paused = false
            rw [signal_paused]
            split
            · next hgate =>
              cases action with
              | pause => exact absurd ⟨hgate, rfl⟩ hmem
              | resume => rfl
              | cancel => exact hresumed
            · exact hresumed
  | channel k task htask hbehind hkind hlive hchannel hbound =>
    have hone := hs.channel_kind hcard htask hbehind hkind hbound
    have hafter : (s.updateTask k (enqueue action)).tasks[k]? = some (enqueue action task) := by
      rw [task_update_task, htask, Option.map_some, if_pos rfl]
    refine ⟨_, card_apply_here (s := s.updateTask k (enqueue action)) _ hcard, ?_⟩
    rcases hrest with ⟨-, hpush, -⟩ | ⟨hnone, hmore, hended, hdoomed⟩
    · rcases hpush with hpush | hpush
      · rw [hone] at hpush
        cases hpush
      · rw [hone] at hpush
        cases hpush
    · refine .inr ⟨hnone, hmore.keep (fun hidle => absurd hidle (not_idle hafter hbehind)) rfl id,
        .inr ((calm_apply (P := True)).ended (hended.resolve_left (not_idle htask hbehind))), ?_⟩
      intro h other hother hbehind'
      rcases enqueued_task htask hother with ⟨rfl, rfl⟩ | ⟨-, hold⟩
      · have hdoom := hdoomed h task htask hbehind
        unfold Doomed at hdoom ⊢
        rw [hkind] at hdoom
        rw [show (enqueue action task).kind = .pull from hkind]
        intro _
        refine ⟨(hdoom hlive).1, ?_⟩
        show drain task.waiting (task.queue ++ [action]) = none
        rw [drain_append, (hdoom hlive).2]
        rfl
      · exact hdoomed h other hold hbehind'

/-- What is emitted is that tasks of the card are reached, and the answer. -/
theorem Reached.events (hs : s.Wired) (hreach : Reached s c card action next emitted) :
    ∃ count, emitted = List.replicate count (.controlled c (some c)) ++ [.answered c action] := by
  cases hreach with
  | gates gates hof hnil =>
    refine ⟨(s.touched c gates).length, congrArg (· ++ [_]) (List.eq_replicate_of_mem ?_)⟩
    intro event hevent
    obtain ⟨task, hmem, rfl⟩ := List.mem_map.mp hevent
    obtain ⟨htask, hmeets⟩ := List.mem_filter.mp hmem
    have hgate : task.live = true ∧ task.gate ∈ gates := by simpa using hmeets
    obtain ⟨k, hk⟩ := List.mem_iff_getElem?.mp htask
    obtain ⟨l, found, hfound, hsame, hbehind, -⟩ := hof task.gate hgate.2
    rw [hs.same_card hk hfound hsame.symm, hbehind]
  | channel k task htask hbehind hkind hlive hchannel hbound => exact ⟨1, by rw [hbehind]; rfl⟩

end Breaking

end ControlDesk

end LocalTrans.Desktop
