import LocalTrans.Shell.ControlSteps

/-!
# Controls that reach their task

After a pause or a cancel of a card is answered, `Obeyed` is what the tasks behind it are in, and
every step keeps them in it. `controls_reach` is the result for the runs that keep to `Routed`.
-/

namespace LocalTrans.Desktop

open Foundation

namespace ControlDesk

variable {k job : Nat}

section Gates

variable {s : ControlDesk} {c h : Nat} {task : EngineTask} {card : ControlCard}

/-- The task whose flags a task looks at is behind the same card. -/
theorem Wired.gate_card (hs : s.Wired) (htask : s.tasks[h]? = some task) :
    ∃ owner, s.tasks[task.gate]? = some owner ∧ owner.card = task.card := by
  have hshape := hs.shape h task htask
  unfold Shape at hshape
  have hself : task.gate = h → ∃ owner, s.tasks[task.gate]? = some owner ∧
      owner.card = task.card := fun hgate => ⟨task, hgate ▸ htask, rfl⟩
  cases hkind : task.kind with
  | pull | push =>
    rw [hkind] at hshape
    exact hself hshape.1
  | source =>
    rw [hkind] at hshape
    cases hoffer : task.offer with
    | none =>
      rw [hoffer] at hshape
      rcases hshape with ⟨-, -, -, -, hgate⟩ | ⟨-, hgate, -⟩
      · exact hself hgate
      · exact hself hgate
    | some push =>
      rw [hoffer] at hshape
      obtain ⟨owner, howner, -, -, hsame, ⟨-, -, -, hgate⟩ | ⟨-, hgate⟩⟩ := hshape
      · exact hself hgate
      · exact ⟨owner, hgate ▸ howner, hsame.symm⟩

/-- Two tasks under the same flags are behind the same card. -/
theorem Wired.same_card (hs : s.Wired) {other : EngineTask} (htask : s.tasks[h]? = some task)
    (hother : s.tasks[k]? = some other) (hgate : task.gate = other.gate) :
    task.card = other.card := by
  obtain ⟨owner, howner, hcard⟩ := hs.gate_card htask
  obtain ⟨owner', howner', hcard'⟩ := hs.gate_card hother
  rw [hgate, howner'] at howner
  obtain rfl := Option.some.inj howner
  exact hcard.symm.trans hcard'

/-- The kinds of task that a card may have behind it. -/
theorem Wired.kind_of_task (hs : s.Wired) (htask : s.tasks[h]? = some task)
    (hcard : task.card = some c) (hfound : s.cards[c]? = some card) :
    match task.kind, task.offer with
    | .pull, _ => card.kind = .download ∨ card.kind = .batchDownload ∨ card.kind = .folderDownload
    | .push, _ => card.kind = .push ∨ card.kind = .batchPush
    | .source, none => card.kind = .served
    | .source, some _ => card.kind = .push ∨ card.kind = .batchPush := by
  have hpush : ∀ (k : Nat) (owner : EngineTask), s.tasks[k]? = some owner → owner.kind = .push →
      owner.card = some c → card.kind = .push ∨ card.kind = .batchPush := by
    intro k owner howner hkind hc
    have hshape := hs.shape k owner howner
    unfold Shape at hshape
    rw [hkind] at hshape
    obtain ⟨-, d, found, hd, hthere, hone⟩ := hshape
    obtain rfl := Option.some.inj (hc.symm.trans hd)
    obtain rfl := Option.some.inj (hfound.symm.trans hthere)
    exact hone
  have hshape := hs.shape h task htask
  unfold Shape at hshape
  cases hkind : task.kind with
  | pull =>
    rw [hkind] at hshape
    obtain ⟨-, d, found, hd, hthere, hone⟩ := hshape
    obtain rfl := Option.some.inj (hcard.symm.trans hd)
    obtain rfl := Option.some.inj (hfound.symm.trans hthere)
    exact hone
  | push => exact hpush h task htask hkind hcard
  | source =>
    rw [hkind] at hshape
    cases hoffer : task.offer with
    | none =>
      rw [hoffer] at hshape
      rcases hshape with ⟨-, -, -, hnone, -⟩ | ⟨-, -, d, found, hd, hthere, hone⟩
      · rw [hcard] at hnone
        cases hnone
      · obtain rfl := Option.some.inj (hcard.symm.trans hd)
        obtain rfl := Option.some.inj (hfound.symm.trans hthere)
        exact hone
    | some push =>
      rw [hoffer] at hshape
      obtain ⟨owner, howner, hownerKind, -, hsame, -⟩ := hshape
      exact hpush push owner howner hownerKind (hsame ▸ hcard)

/-- The tasks of a push that have begun look at the flags of one task, which is the push. -/
theorem Wired.push_gate (hs : s.Wired) {other : EngineTask} (htask : s.tasks[h]? = some task)
    (hother : s.tasks[k]? = some other) (hcard : task.card = some c) (hcard' : other.card = some c)
    (hfound : s.cards[c]? = some card) (hkind : card.kind = .push ∨ card.kind = .batchPush)
    (hstarted : task.kind = .source → task.started = true)
    (hstarted' : other.kind = .source → other.started = true) : task.gate = other.gate := by
  -- each task has the place of a push behind the card as its gate
  have hgate : ∀ (k : Nat) (task : EngineTask), s.tasks[k]? = some task → task.card = some c →
      (task.kind = .source → task.started = true) →
        ∃ owner, s.tasks[task.gate]? = some owner ∧ owner.kind = .push ∧ owner.card = some c := by
    intro k task htask hcard hstarted
    have hshape := hs.shape k task htask
    have hallowed := hs.kind_of_task htask hcard hfound
    unfold Shape at hshape
    cases htaskKind : task.kind with
    | pull =>
      rw [htaskKind] at hallowed
      rcases hkind with hkind | hkind <;> simp [hkind] at hallowed
    | push =>
      rw [htaskKind] at hshape
      exact ⟨task, hshape.1.symm ▸ htask, htaskKind, hcard⟩
    | source =>
      rw [htaskKind] at hallowed hshape
      cases hoffer : task.offer with
      | none =>
        rw [hoffer] at hallowed
        rcases hkind with hkind | hkind <;> simp [hkind] at hallowed
      | some push =>
        rw [hoffer] at hshape
        obtain ⟨owner, howner, hownerKind, -, hsame, ⟨hnew, -⟩ | ⟨-, hpush⟩⟩ := hshape
        · simp [hstarted htaskKind] at hnew
        · exact ⟨owner, hpush ▸ howner, hownerKind, hsame ▸ hcard⟩
  obtain ⟨owner, howner, hpush, hc⟩ := hgate h task htask hcard hstarted
  obtain ⟨owner', howner', hpush', hc'⟩ := hgate k other hother hcard' hstarted'
  exact hs.single _ _ owner owner' c card howner howner' hc hc' hfound (.inr (.inr ⟨hpush, hpush'⟩))

/-- The task that a job of the card leads to is behind the card. -/
theorem Wired.job_card (hs : s.Wired) (hbacked : s.Backed job c) (htask : s.tasks[h]? = some task)
    (hjob : task.job = job) : task.card = some c := by
  obtain ⟨k, found, hfound, hj, hcard, -⟩ := hbacked
  obtain rfl := hs.apart h k task found htask hfound (hjob.trans hj.symm)
  obtain rfl := Option.some.inj (htask.symm.trans hfound)
  exact hcard

/-- What `sender_jobs` and `push_controls` find: a task that goes on. -/
theorem gate_found {gate : Nat} (h : s.senderGate job = some gate ∨ s.pushGate job = some gate) :
    ∃ (k : Nat) (task : EngineTask), s.tasks[k]? = some task ∧ task.job = job ∧ task.gate = gate ∧
      task.live = true ∧ (task.kind = .source ∨ (task.kind = .push ∧ task.large = true)) := by
  rcases h with h | h
  · obtain ⟨task, hfind, rfl⟩ := Option.map_eq_some_iff.mp h
    obtain ⟨k, hk⟩ := List.mem_iff_getElem?.mp (List.mem_of_find?_eq_some hfind)
    have hmeets := List.find?_some hfind
    simp only [decide_eq_true_eq] at hmeets
    exact ⟨k, task, hk, hmeets.2.2, rfl, hmeets.2.1, .inl hmeets.1⟩
  · obtain ⟨task, hfind, rfl⟩ := Option.map_eq_some_iff.mp h
    obtain ⟨k, hk⟩ := List.mem_iff_getElem?.mp (List.mem_of_find?_eq_some hfind)
    have hmeets := List.find?_some hfind
    simp only [decide_eq_true_eq] at hmeets
    exact ⟨k, task, hk, hmeets.2.2.2, rfl, hmeets.2.1, .inr ⟨hmeets.1, hmeets.2.2.1⟩⟩

end Gates

/-- The children of a card have different jobs. -/
def Distinct (children : List ControlChild) : Prop :=
  ∀ (i j : Nat) (first second : ControlChild), children[i]? = some first →
    children[j]? = some second → first.job = second.job → first.job ≠ none → i = j

/-- What a task keeps, as far as its controls go: what it has read of its channel, and that it does
not begin. A push whose card is excepted may end, or have more to write. -/
structure CalmTask (except : Prop) (before after : EngineTask) : Prop where
  kind : after.kind = before.kind
  job : after.job = before.job
  card : after.card = before.card
  gate : after.gate = before.gate
  large : after.large = before.large
  offer : after.offer = before.offer
  live : after.live = true → before.live = true
  going : before.kind = .push → before.live = true → after.live = true ∨ except
  started : before.kind = .source → after.started = before.started
  listening : before.listening = true → after.listening = true
  drained : drain after.waiting after.queue = drain before.waiting before.queue
  left : (∃ left, after.left = some (left + 1)) →
    (∃ left, before.left = some (left + 1)) ∨ except
  deferred : before.live = false → after.deferred ≤ before.deferred

theorem CalmTask.refl (except : Prop) (task : EngineTask) : CalmTask except task task :=
  ⟨rfl, rfl, rfl, rfl, rfl, rfl, id, fun _ hlive => .inl hlive, fun _ => rfl, id, rfl, .inl,
    fun _ => Nat.le_refl _⟩

theorem CalmTask.trans {except : Prop} {first second third : EngineTask}
    (h : CalmTask except first second) (h' : CalmTask except second third) :
    CalmTask except first third where
  kind := h'.kind.trans h.kind
  job := h'.job.trans h.job
  card := h'.card.trans h.card
  gate := h'.gate.trans h.gate
  large := h'.large.trans h.large
  offer := h'.offer.trans h.offer
  live hlive := h.live (h'.live hlive)
  going hkind hlive := (h.going hkind hlive).elim (h'.going (h.kind.trans hkind)) .inr
  started hkind := (h'.started (h.kind.trans hkind)).trans (h.started hkind)
  listening hlisten := h'.listening (h.listening hlisten)
  drained := h'.drained.trans h.drained
  left hleft := (h'.left hleft).elim h.left .inr
  deferred hdead := by
    have hdead' : second.live = false := by
      cases hsecond : second.live with
      | false => rfl
      | true => simp [h.live hsecond] at hdead
    exact Nat.le_trans (h'.deferred hdead') (h.deferred hdead)

/-- What a card keeps, as far as its controls go. The flag of a card that is excepted may be
removed. -/
structure CalmCard (except : Prop) (before after : ControlCard) : Prop where
  kind : after.kind = before.kind
  ended : before.Ended → after.Ended
  distinct : Distinct before.children → Distinct after.children
  flag : after.flag = before.flag ∨ (except ∧ after.flag = none)

theorem CalmCard.refl (except : Prop) (card : ControlCard) : CalmCard except card card :=
  ⟨rfl, id, id, .inl rfl⟩

theorem CalmCard.trans {except : Prop} {first second third : ControlCard}
    (h : CalmCard except first second) (h' : CalmCard except second third) :
    CalmCard except first third := by
  refine ⟨h'.kind.trans h.kind, fun hended => h'.ended (h.ended hended),
    fun hdistinct => h'.distinct (h.distinct hdistinct), ?_⟩
  rcases h'.flag with hflag | hcleared
  · rw [hflag]
    exact h.flag
  · exact .inr hcleared

/-- The card of the task is one of those. -/
def OnCard (cards : Nat → Prop) (task : EngineTask) : Prop :=
  ∃ d, task.card = some d ∧ cards d

/-- The tasks and cards of a desk keep what is asked of them, but for the cards that are excepted. A
channel that is new is that of a task that listens, and the id of a job that is served stays bound. -/
structure Calm (except : Nat → Prop) (s next : ControlDesk) : Prop where
  flags : next.flags = s.flags
  parents : next.pendingChildren = s.pendingChildren
  channels : ∀ (job h : Nat), next.taskControls job = some h → s.taskControls job = some h ∨
    ∃ task, next.tasks[h]? = some task ∧ task.listening = true
  bound : ∀ job, next.engineToCard job = s.engineToCard job ∨
    ∃ (k : Nat) (task : EngineTask), s.tasks[k]? = some task ∧ task.job = job ∧ task.kind ≠ .source
  tasks : ∀ k : Nat, Option.Rel (fun before after => CalmTask (OnCard except before) before after)
    s.tasks[k]? next.tasks[k]?
  cards : ∀ k : Nat, Option.Rel (CalmCard (except k)) s.cards[k]? next.cards[k]?

section Options

variable {α : Type*} {R : α → α → Prop} {o o' o'' : Option α}

theorem option_rel_refl (h : ∀ a, R a a) (o : Option α) : Option.Rel R o o := by
  cases o with
  | none => exact .none
  | some a => exact .some (h a)

theorem option_rel_trans (h : ∀ a b c, R a b → R b c → R a c) (hfirst : Option.Rel R o o')
    (hsecond : Option.Rel R o' o'') : Option.Rel R o o'' := by
  cases hfirst with
  | none =>
    cases hsecond with
    | none => exact .none
  | some hab =>
    cases hsecond with
    | some hbc => exact .some (h _ _ _ hab hbc)

theorem option_rel_back (h : Option.Rel R o o') {b : α} (hb : o' = some b) :
    ∃ a, o = some a ∧ R a b := by
  subst hb
  cases h with
  | some hab => exact ⟨_, rfl, hab⟩

theorem option_rel_on (h : Option.Rel R o o') {a : α} (ha : o = some a) :
    ∃ b, o' = some b ∧ R a b := by
  subst ha
  cases h with
  | some hab => exact ⟨_, rfl, hab⟩

end Options

section Calmness

variable {except : Nat → Prop} {P : Prop} {s next : ControlDesk} {c h : Nat} {task : EngineTask}
  {card : ControlCard} {f : ControlCard → ControlCard} {g : EngineTask → EngineTask} {name : String}
  {ok : Bool}

/-- A task after calm steps was there before. -/
theorem Calm.task_back (hcalm : Calm except s next) {after : EngineTask}
    (hafter : next.tasks[k]? = some after) :
    ∃ before, s.tasks[k]? = some before ∧ CalmTask (OnCard except before) before after :=
  option_rel_back (hcalm.tasks k) hafter

/-- A task is there after calm steps. -/
theorem Calm.task_on (hcalm : Calm except s next) {before : EngineTask}
    (hbefore : s.tasks[k]? = some before) :
    ∃ after, next.tasks[k]? = some after ∧ CalmTask (OnCard except before) before after :=
  option_rel_on (hcalm.tasks k) hbefore

theorem Calm.card_back (hcalm : Calm except s next) {after : ControlCard}
    (hafter : next.cards[k]? = some after) :
    ∃ before, s.cards[k]? = some before ∧ CalmCard (except k) before after :=
  option_rel_back (hcalm.cards k) hafter

theorem Calm.card_on (hcalm : Calm except s next) {before : ControlCard}
    (hbefore : s.cards[k]? = some before) :
    ∃ after, next.cards[k]? = some after ∧ CalmCard (except k) before after :=
  option_rel_on (hcalm.cards k) hbefore

theorem Calm.refl (s : ControlDesk) : Calm except s s :=
  ⟨rfl, rfl, fun _ _ h => .inl h, fun _ => .inl rfl,
    fun _ => option_rel_refl (fun task => CalmTask.refl _ task) _,
    fun _ => option_rel_refl (CalmCard.refl _) _⟩

theorem Calm.trans {last : ControlDesk} (h : Calm except s next) (h' : Calm except next last) :
    Calm except s last where
  flags := h'.flags.trans h.flags
  parents := h'.parents.trans h.parents
  channels job k hk := by
    rcases h'.channels job k hk with hold | hnew
    · rcases h.channels job k hold with hfirst | ⟨task, htask, hlisten⟩
      · exact .inl hfirst
      · obtain ⟨after, hafter, hkept⟩ := h'.task_on htask
        exact .inr ⟨after, hafter, hkept.listening hlisten⟩
    · exact .inr hnew
  bound job := by
    rcases h'.bound job with heq | ⟨k, task, htask, hjob, hkind⟩
    · rw [heq]
      exact h.bound job
    · obtain ⟨before, hbefore, hkept⟩ := h.task_back htask
      exact .inr ⟨k, before, hbefore, hkept.job.symm.trans hjob, hkept.kind ▸ hkind⟩
  tasks k := by
    refine option_rel_trans (R := fun before after => CalmTask (OnCard except before) before after)
      (fun first second third hfirst hsecond => hfirst.trans ?_) (h.tasks k) (h'.tasks k)
    have hsame : OnCard except second = OnCard except first := by
      unfold OnCard
      rw [hfirst.card]
    exact hsame ▸ hsecond
  cards k := option_rel_trans (fun _ _ _ hfirst hsecond => hfirst.trans hsecond) (h.cards k)
    (h'.cards k)

theorem Calm.idle_iff (hcalm : Calm except s next) : next.Idle k ↔ s.Idle k := by
  constructor
  · intro hidle task htask hcard
    obtain ⟨place, hplace⟩ := List.mem_iff_getElem?.mp htask
    obtain ⟨after, hafter, hkept⟩ := hcalm.task_on hplace
    exact hidle after (List.mem_of_getElem? hafter) (hkept.card.trans hcard)
  · intro hidle task htask hcard
    obtain ⟨place, hplace⟩ := List.mem_iff_getElem?.mp htask
    obtain ⟨before, hbefore, hkept⟩ := hcalm.task_back hplace
    exact hidle before (List.mem_of_getElem? hbefore) (hkept.card.symm.trans hcard)

theorem calm_update_card (hf : ∀ card, s.cards[c]? = some card → CalmCard (except c) card (f card)) :
    Calm except s (s.updateCard c f) := by
  have hsame : Calm except s s := .refl s
  refine ⟨rfl, rfl, hsame.channels, hsame.bound, hsame.tasks, fun k => ?_⟩
  rw [card_update_card]
  cases hcard : s.cards[k]? with
  | none => exact .none
  | some card =>
    refine .some ?_
    split
    · next heq =>
      subst heq
      exact hf card hcard
    · exact .refl _ card

theorem calm_update_task (hg : ∀ task, s.tasks[h]? = some task →
      CalmTask (OnCard except task) task (g task)) : Calm except s (s.updateTask h g) := by
  have hsame : Calm except s s := .refl s
  refine ⟨rfl, rfl, fun job k hk => .inl hk, hsame.bound, fun k => ?_, hsame.cards⟩
  rw [task_update_task]
  cases htask : s.tasks[k]? with
  | none => exact .none
  | some task =>
    refine .some ?_
    split
    · next heq =>
      subst heq
      exact hg task htask
    · exact .refl _ task

/-- An ended card stays as it is. -/
theorem apply_ended (ev : CardEvent) (h : card.Ended) : (card.apply ev).state = card.state := by
  show nextState card.state ev = card.state
  rcases h with h | h | h
  · rw [h]
    rfl
  · rw [h]
    rfl
  · rw [h]
    rfl

theorem calm_apply {ev : CardEvent} : CalmCard P card (card.apply ev) := by
  refine ⟨rfl, fun hended => ?_, id, .inl rfl⟩
  have hsame := apply_ended ev hended
  unfold ControlCard.Ended
  rw [hsame]
  exact hended

theorem calm_recheck : CalmCard P card card.recheck := by
  obtain ⟨state, heq⟩ := ControlCard.recheck_eq card
  refine ⟨ControlCard.recheck_kind, fun hended => ?_, ?_, ?_⟩
  · unfold ControlCard.recheck
    rw [if_pos (.inr (.inr hended))]
    exact hended
  · rw [heq]
    exact id
  · rw [heq]
    exact .inl rfl

variable {child : ControlChild}

/-- The slot of a child with a job is that of its job, or no child has the job. -/
theorem control_slot_job (children : List ControlChild) (hjob : child.job = some job) :
    (∃ (i : Nat) (found : ControlChild), controlSlot children child = some i ∧
      children[i]? = some found ∧ found.job = some job) ∨
      ∀ found ∈ children, found.job ≠ some job := by
  unfold controlSlot
  rw [hjob]
  dsimp only
  cases hslot : children.findIdx? fun c => c.job = some job with
  | none =>
    refine .inr fun found hmem hfound => ?_
    have hnone := List.findIdx?_eq_none_iff.mp hslot found hmem
    simp [hfound] at hnone
  | some i =>
    obtain ⟨hi, hmeets, -⟩ := List.findIdx?_eq_some_iff_getElem.mp hslot
    exact .inl ⟨i, children[i], rfl, List.getElem?_eq_getElem hi, by simpa using hmeets⟩

variable {children : List ControlChild}

/-- A child that is put in place of another has no job that a child elsewhere has. -/
theorem distinct_set {i : Nat} (h : Distinct children)
    (hnew : ∀ (k : Nat) (found : ControlChild), children[k]? = some found →
      found.job = child.job → child.job ≠ none → k = i) : Distinct (children.set i child) := by
  -- what stands at a place other than the slot was there before
  have hother : ∀ (k : Nat) (found : ControlChild), (children.set i child)[k]? = some found →
      (k = i ∧ found = child) ∨ (k ≠ i ∧ children[k]? = some found) := by
    intro k found hfound
    rw [List.getElem?_set] at hfound
    split at hfound
    · next heq =>
      split at hfound
      · exact .inl ⟨heq.symm, (Option.some.inj hfound).symm⟩
      · cases hfound
    · next hne => exact .inr ⟨fun heq => hne heq.symm, hfound⟩
  intro j k first second hfirst hsecond hjob hsome
  rcases hother j first hfirst with ⟨rfl, rfl⟩ | ⟨-, hold⟩
  · rcases hother k second hsecond with ⟨rfl, -⟩ | ⟨-, hold⟩
    · rfl
    · exact (hnew k second hold hjob.symm hsome).symm
  · rcases hother k second hsecond with ⟨rfl, rfl⟩ | ⟨-, hold'⟩
    · exact hnew j first hold hjob (hjob ▸ hsome)
    · exact h j k first second hold hold' hjob hsome

theorem distinct_concat (h : Distinct children)
    (hnew : ∀ found ∈ children, found.job = child.job → child.job = none) :
    Distinct (children ++ [child]) := by
  intro i j first second hfirst hsecond hjob hsome
  rcases concat_cases hfirst with hold | ⟨rfl, rfl⟩
  · rcases concat_cases hsecond with hold' | ⟨-, rfl⟩
    · exact h i j first second hold hold' hjob hsome
    · exact absurd (hjob.trans (hnew first (List.mem_of_getElem? hold) hjob)) hsome
  · rcases concat_cases hsecond with hold' | ⟨rfl, -⟩
    · exact absurd (hnew second (List.mem_of_getElem? hold') hjob.symm) hsome
    · rfl

theorem distinct_upsert (h : Distinct children) : Distinct (upsertChild children child) := by
  unfold upsertChild
  cases hjob : child.job with
  | none =>
    split
    · exact distinct_set h fun _ _ _ _ hsome => absurd hjob hsome
    · exact distinct_concat h fun _ _ _ => hjob
  | some job =>
    rcases control_slot_job children hjob with ⟨i, found, hslot, hfound, hsame⟩ | hnone
    · rw [hslot]
      refine distinct_set h fun k other hother heq _ => ?_
      exact h k i other found hother hfound (heq.trans (hjob.trans hsame.symm)) (by
        rw [heq, hjob]
        simp)
    · split
      · refine distinct_set h fun k other hother heq _ => ?_
        exact absurd (heq.trans hjob) (hnone other (List.mem_of_getElem? hother))
      · exact distinct_concat h fun other hmem heq => absurd (heq.trans hjob) (hnone other hmem)

theorem calm_upsert : CalmCard P card (card.upsert child) :=
  ⟨rfl, id, distinct_upsert, .inl rfl⟩

theorem calm_attach : CalmCard P card (card.attach name job) :=
  ⟨rfl, id, distinct_upsert, .inl rfl⟩

theorem calm_finish_oldest {state : ChildState} : CalmCard P card (card.finishOldest state) := by
  unfold ControlCard.finishOldest
  split
  · exact calm_recheck
  · exact calm_upsert.trans calm_recheck

theorem calm_finish_smalls {smalls : Nat} : CalmCard P card (finishSmalls smalls card) := by
  induction smalls generalizing card with
  | zero => exact calm_finish_oldest
  | succ smalls ih => exact calm_finish_oldest.trans ih

theorem calm_finish_child {state : ChildState} :
    CalmCard P card (card.finishChild job state) := calm_upsert.trans calm_recheck

/-- A task that is no push may end. -/
theorem calm_stop (h : task.kind = .push → P) : CalmTask P task task.stop :=
  ⟨rfl, rfl, rfl, rfl, rfl, rfl, fun hlive => by simp [EngineTask.stop] at hlive,
    fun hkind _ => .inr (h hkind), fun _ => rfl, id, rfl, .inl, fun _ => Nat.le_refl _⟩

theorem calm_apply_card {ev : CardEvent} :
    Calm except s (s.updateCard c fun card => card.apply ev) :=
  calm_update_card fun _ _ => calm_apply

theorem calm_end_task
    (h' : ∀ task, s.tasks[h]? = some task → task.kind = .push → OnCard except task) :
    Calm except s (s.updateTask h EngineTask.stop) :=
  calm_update_task fun task htask => calm_stop (h' task htask)

theorem calm_source_ended (htask : s.tasks[h]? = some task) (hkind : task.kind ≠ .push) :
    Calm except s (s.sourceEnded h task ok) := by
  have hended : Calm except s (s.updateTask h EngineTask.stop) := by
    refine calm_end_task fun found hfound hpush => ?_
    obtain rfl := Option.some.inj (hfound.symm.trans htask)
    exact absurd hpush hkind
  unfold sourceEnded
  dsimp only
  split
  · exact hended.trans (calm_update_card fun _ _ => calm_finish_child)
  · split
    · exact hended.trans calm_apply_card
    · exact hended

theorem calm_cleanup_one (push : Nat) : Calm except s (cleanupOne push s h) := by
  unfold cleanupOne
  split
  · next task htask =>
    split
    · next hmeets => exact calm_source_ended htask (by simp [hmeets.1])
    · exact .refl s
  · exact .refl s

theorem calm_cleanup (push : Nat) : Calm except s (s.cleanupPushSenders push) := by
  unfold cleanupPushSenders
  generalize List.range s.tasks.length = places
  induction places generalizing s with
  | nil => exact .refl s
  | cons place places ih => exact (calm_cleanup_one push).trans ih

theorem calm_clear_flag (hc : except c) :
    Calm except s (s.updateCard c ControlCard.clearFlag) :=
  calm_update_card fun _ _ => ⟨rfl, id, id, .inr ⟨hc, rfl⟩⟩

/-- A push may end if its card is excepted. -/
theorem calm_end_push (hc : except c) (htask : s.tasks[h]? = some task)
    (hcard : task.card = some c) : Calm except s (s.updateTask h EngineTask.stop) := by
  refine calm_end_task fun found hfound _ => ⟨c, ?_, hc⟩
  rw [Option.some.inj (hfound.symm.trans htask)]
  exact hcard

theorem calm_push_failed (hc : except c) (htask : s.tasks[h]? = some task)
    (hcard : task.card = some c) : Calm except s (s.pushFailed h task c) := by
  have hcleared : Calm except s (((s.updateTask h EngineTask.stop).cleanupPushSenders h).updateCard c
      ControlCard.clearFlag) :=
    ((calm_end_push hc htask hcard).trans (calm_cleanup h)).trans (calm_clear_flag hc)
  unfold pushFailed
  dsimp only
  split
  · exact hcleared
  · exact hcleared.trans calm_apply_card

theorem calm_push_done (hc : except c) (htask : s.tasks[h]? = some task)
    (hcard : task.card = some c) : Calm except s (s.pushDone h task c) := by
  have hcleared : Calm except s ((s.updateTask h EngineTask.stop).updateCard c
      ControlCard.clearFlag) :=
    (calm_end_push hc htask hcard).trans (calm_clear_flag hc)
  unfold pushDone
  dsimp only
  split
  · exact hcleared.trans (calm_update_card fun _ _ => calm_finish_smalls)
  · exact hcleared.trans calm_apply_card

theorem calm_pull_failed {d : Option Nat} : Calm except s (s.pullFailed d name) := by
  unfold pullFailed
  split
  · exact .refl s
  · split
    · exact calm_apply_card
    · exact calm_update_card fun _ _ => calm_upsert
    · exact .refl s

theorem calm_pull_ended {d : Option Nat} : Calm except s (s.pullEnded d name ok) := by
  unfold pullEnded
  split
  · exact .refl s
  · split
    · split
      · exact calm_apply_card
      · exact .refl s
    · exact calm_update_card fun _ _ => calm_upsert
    · exact .refl s

theorem calm_close_channel : Calm except s (s.closeChannel task ok) := by
  have hsame : Calm except s s := .refl s
  unfold closeChannel
  split
  · refine ⟨rfl, rfl, fun job k hk => .inl ?_, hsame.bound, hsame.tasks, hsame.cards⟩
    by_cases heq : job = task.job
    · subst heq
      simp at hk
    · simpa [Function.update_of_ne heq] using hk
  · exact hsame

theorem calm_bind_first (htask : s.tasks[h]? = some task) (hjob : task.job = job)
    (hkind : task.kind ≠ .source) : Calm except s (s.bindFirst job c) := by
  unfold bindFirst
  split
  · have hbound : Calm except s (s.updateCard c fun card => { card with engineId := some job }) :=
      calm_update_card fun _ _ => ⟨rfl, id, id, .inl rfl⟩
    refine ⟨rfl, rfl, hbound.channels, fun id => ?_, hbound.tasks, hbound.cards⟩
    by_cases heq : id = job
    · exact .inr ⟨h, task, htask, hjob.trans heq.symm, hkind⟩
    · exact .inl (Function.update_of_ne heq ..)
  · exact .refl s

theorem calm_handle_started (htask : s.tasks[h]? = some task) (hkind : task.kind ≠ .source) :
    Calm except s (s.handleStarted h task name) := by
  have hnext : Calm except s (s.updateTask h fun task => { task with started := true }) := by
    refine calm_update_task fun found hfound => ?_
    obtain rfl := Option.some.inj (hfound.symm.trans htask)
    exact ⟨rfl, rfl, rfl, rfl, rfl, rfl, id, fun _ hlive => .inl hlive,
      fun hsource => absurd hsource hkind, id, rfl, .inl, fun _ => Nat.le_refl _⟩
  have hfound : (s.updateTask h fun task => { task with started := true }).tasks[h]? =
      some { task with started := true } := by
    rw [task_update_task, htask, Option.map_some, if_pos rfl]
  have hbound : ∀ c, Calm except s
      ((s.updateTask h fun task => { task with started := true }).bindFirst task.job c) :=
    fun c => hnext.trans (calm_bind_first hfound rfl hkind)
  unfold handleStarted
  dsimp only
  split
  · exact hnext
  · split
    · exact (hbound _).trans calm_apply_card
    · exact (hbound _).trans calm_apply_card
    · exact hnext.trans (calm_update_card fun _ _ => calm_apply.trans calm_upsert)
    · exact hnext.trans (calm_update_card fun _ _ => calm_apply.trans calm_upsert)
    · exact hnext.trans calm_apply_card

theorem calm_hear_start (htask : s.tasks[h]? = some task) (hkind : task.kind ≠ .source) :
    Calm except s (s.hearStart h task name) := by
  unfold hearStart
  split
  · exact .refl s
  · exact calm_handle_started htask hkind

end Calmness

end ControlDesk

end LocalTrans.Desktop
