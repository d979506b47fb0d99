import LocalTrans.Shell.ControlWiring

/-!
# The steps of the desktop's transfers

`Routed` says where `transfer_action` on a card reaches the tasks behind it, and where a push that was
told to stop leaves no open card. `Moves` and `DeskMoves` are the branches of a step, and
`Wired.step` says that every step that keeps to `Routed` keeps the tables wired.
-/

namespace LocalTrans.Desktop

open Foundation

namespace ControlDesk

instance (task : EngineTask) : Decidable (∃ left, task.left = some (left + 1)) :=
  decidable_of_iff (task.left ≠ none ∧ task.left ≠ some 0) (by
    cases task.left with
    | none => simp
    | some left =>
      cases left with
      | zero => simp
      | succ left => simp)

/-- The push has small files left to write and waits for a resume before each. -/
def Stuck (s : ControlDesk) (task : EngineTask) : Prop :=
  task.kind = .push ∧ task.live = true ∧ task.large = true ∧ (s.flags task.gate).paused = true ∧
    ∃ left, task.left = some (left + 1)
deriving Decidable

/-- The push has small files left to write, and would wait before each if it were paused. -/
def Writing (task : EngineTask) : Prop :=
  task.kind = .push ∧ task.live = true ∧ task.large = true ∧ ∃ left, task.left = some (left + 1)
deriving Decidable

/-- The file that is served is attached to the card of its push, which goes on; a file of no push
gets a new card. -/
def AttachesRight (s : ControlDesk) (task : EngineTask) : Prop :=
  match task.offer with
  | none => s.NewPlace
  | some push =>
    (∃ owner ∈ s.tasks[push]?, owner.live = true) ∧
      ∃ c ∈ task.card, ∃ card ∈ s.cards[c]?,
        s.attachTo card.peer = some (c, decide (card.kind = .batchPush))

/-- Nothing goes on behind the card, and no request that is held can go on. -/
def Still (s : ControlDesk) (c : Nat) : Prop :=
  ∀ task ∈ s.tasks, task.card = some c →
    task.live = false ∧ (task.deferred = 0 ∨ (s.flags task.gate).paused = true)
deriving Decidable

/-- Nothing goes on behind the card, and every request that is held can go on. -/
def Released (s : ControlDesk) (c : Nat) : Prop :=
  ∀ task ∈ s.tasks, task.card = some c →
    task.live = false ∧ (task.deferred = 0 ∨ (s.flags task.gate).paused = false)
deriving Decidable

/-- A pause reaches what goes on behind the card: a download does not wait already, no file of
several is under way, and of the jobs of several pushed files one is served, or nothing goes on. A
push that is told to stop writes no files. -/
def PauseReaches (s : ControlDesk) (c : Nat) (card : ControlCard) : Prop :=
  match card.kind with
  | .download => ∀ task ∈ s.tasks, task.card = some c → drain task.waiting task.queue ≠ some true
  | .batchDownload => card.activeChildren = []
  | .push | .batchPush =>
    (card.flag = some true → ∀ task ∈ s.tasks, task.card = some c → ¬ Writing task) ∧
      (card.kind = .batchPush → card.activeChildren = [] ∨
        (card.flag = none ∧ s.Still c) ∨ s.targetGates card ≠ [])
  | _ => True

/-- A cancel reaches what goes on behind the card: it is not the card of several files that are
downloaded, its push does not wait for a resume, and of the jobs that are left of a push of several
files one is served, or nothing goes on. -/
def CancelReaches (s : ControlDesk) (c : Nat) (card : ControlCard) : Prop :=
  match card.kind with
  | .batchDownload => card.flag = none ∧ card.activeChildren = []
  | .push | .batchPush =>
    (card.flag ≠ none → ∀ task ∈ s.tasks, task.card = some c → ¬ s.Stuck task) ∧
      (card.kind = .batchPush → card.flag = none →
        card.activeChildren = [] ∨ s.Released c ∨ s.targetGates card ≠ [])
  | _ => True

/-- The job is served for the push. -/
def ServedFor (push : Nat) (task : EngineTask) : Prop :=
  task.kind = .source ∧ task.live = true ∧ task.offer = some push
deriving Decidable

/-- A push that stops at its cancel flag leaves no open card and no held request: the card has ended,
or nothing has started, or the jobs that are served for it stand for all that is open on the card. -/
def Lands (s : ControlDesk) (h : Nat) (task : EngineTask) (card : ControlCard) : Prop :=
  (∀ source ∈ s.tasks, source.offer = some h → source.deferred = 0 ∨
    (s.flags source.gate).paused = false) ∧
  (card.Ended ∨ task.started = false ∨
    ((∃ source ∈ s.tasks, ServedFor h source) ∧
      (card.kind = .batchPush → ∀ child ∈ card.activeChildren, ∃ source ∈ s.tasks,
        ServedFor h source ∧ child.job = some source.job)))
deriving Decidable

/-- A push that is done before it looks at its cancel flag leaves no open card, and nothing is served
for it any more: the card has ended, or is that of one file that has started, or what is open on it
are small files with names of their own, no more than have a `Done`. -/
def DoneLands (s : ControlDesk) (h : Nat) (task : EngineTask) (card : ControlCard) : Prop :=
  (∀ source ∈ s.tasks, source.offer = some h → source.live = false ∧
    (source.deferred = 0 ∨ (s.flags source.gate).paused = false)) ∧
  (card.Ended ∨ (card.kind ≠ .batchPush ∧ card.state ≠ .pending) ∨
    (card.children ≠ [] ∧ (card.children.map ControlChild.name).Nodup ∧
      (∀ child ∈ card.activeChildren, child.job = none) ∧
        card.activeChildren.length ≤ task.smalls + 1))
deriving Decidable

/-- What the steps of a run keep to: ids that are new, files that are attached to the card of their
push, actions that reach what goes on, and pushes that end well once their cancel flag is set. -/
def Routed : Guard ControlDesk ControlInput ControlEvent
  | _, s, .newCard _ _ => s.NewPlace
  | _, s, .metaResp _ job => s.Unused job
  | _, s, .pushFiles _ _ _ => s.Unused s.nextJobId
  | _, s, .metaReq _ => s.Unused s.nextSourceJobId
  | _, s, .serve h _ => ∀ task ∈ s.tasks[h]?, s.AttachesRight task
  | _, s, .accepted h => ∀ task ∈ s.tasks[h]?, ∀ c ∈ task.card, ∀ card ∈ s.cards[c]?,
      card.flag = some true →
        task.large = false ∨ task.smalls = 0 ∨ (s.flags task.gate).paused = false
  | _, s, .check h => ∀ task ∈ s.tasks[h]?, ∀ c ∈ task.card, ∀ card ∈ s.cards[c]?,
      card.flag = some true → s.Lands h task card
  | _, s, .pushEnd h ok => ∀ task ∈ s.tasks[h]?, ∀ c ∈ task.card, ∀ card ∈ s.cards[c]?,
      card.flag = some true → if ok then s.DoneLands h task card else s.Lands h task card
  | _, s, .act c .pause => ∀ card ∈ s.cards[c]?, s.PauseReaches c card
  | _, s, .act c .cancel => ∀ card ∈ s.cards[c]?, s.CancelReaches c card
  | _, _, _ => True

/-- Whether the last pause or resume of the card that was answered is a pause. -/
def heldAfter (c : Nat) (held : Bool) : ControlEvent → Bool
  | .answered card .pause => if card = c then true else held
  | .answered card .resume => if card = c then false else held
  | _ => held

/-- The card was paused, and not resumed since. -/
def Held (trace : List ControlEvent) (c : Nat) : Prop :=
  trace.foldl (heldAfter c) false = true

/-- The cancel of the card was answered. -/
def Cancelled (trace : List ControlEvent) (c : Nat) : Prop :=
  .answered c .cancel ∈ trace

/-- Nothing works for a card that is held, and an action reaches only tasks of its own card. -/
def Steered (before : List ControlEvent) : ControlEvent → Prop
  | .worked card => ∀ c, card = some c → ¬ Held before c
  | .controlled of card => card = some of
  | .answered _ _ => True

/-- The task at a place has ended. -/
def HasEnded (s : ControlDesk) (h : Nat) : Prop :=
  ∀ task, s.tasks[h]? = some task → task.live = false

/-- The task ends at the next look at its control. A push that has small files left comes closer to
it with each, and takes all its jobs with it when it ends. -/
def Ending (s : ControlDesk) (h : Nat) (task : EngineTask) : Prop :=
  match task.kind with
  | .pull => ∀ name, ∃ next, step s (.pull h name) = some (next, []) ∧ next.HasEnded h
  | .push =>
    match task.left with
    | some (left + 1) => ∃ next, step s (.small h) = some (next, [.worked task.card]) ∧
        next.tasks[h]? = some { task with left := some left }
    | _ => ∃ next, step s (.check h) = some (next, []) ∧
        ∀ (k : Nat) (other : EngineTask), next.tasks[k]? = some other →
          other.card = task.card → other.live = false
  | .source =>
    (∃ next, step s (.fetch h) = some (next, []) ∧ next.HasEnded h) ∨
      ∃ push owner, task.offer = some push ∧ s.tasks[push]? = some owner ∧
        owner.kind = .push ∧ owner.card = task.card ∧ owner.live = true

/-- All that goes on behind the card is about to end, and once nothing goes on behind it any more the
card has ended and no request stays held. -/
structure Stopping (s : ControlDesk) (c : Nat) : Prop where
  ending : ∀ h task, s.tasks[h]? = some task → task.card = some c → task.live = true →
    s.Ending h task
  waking : s.Quiet c → ∀ h task, s.tasks[h]? = some task → task.card = some c →
    task.kind = .source → 0 < task.deferred → (step s (.wake h)).isSome = true
  ended : ¬ s.Idle c → s.Quiet c → ∃ card, s.cards[c]? = some card ∧ card.Ended

/-- The shell has handled the start of a download when it handles its end. -/
def hearStart (s : ControlDesk) (h : Nat) (task : EngineTask) (name : String) : ControlDesk :=
  if task.started then s else s.handleStarted h task name

/-- The channel of a download that is done is removed. -/
def closeChannel (s : ControlDesk) (task : EngineTask) (ok : Bool) : ControlDesk :=
  if ok then { s with taskControls := Function.update s.taskControls task.job none } else s

/-- The flags that a file looks at once it is served. -/
def servedGate (s : ControlDesk) (h : Nat) (task : EngineTask) : Nat :=
  match task.offer with
  | some push => if (s.tasks[push]?).any fun task => task.live ∧ task.large then push else h
  | none => h

/-- What `taskStep` does, a branch each. -/
inductive Moves (s : ControlDesk) (h : Nat) (task : EngineTask) :
    ControlInput → ControlDesk → List ControlEvent → Prop where
  | register (k : Nat) : task.kind = .pull → task.live = true →
      Moves s h task (.register k)
        { s.updateTask h fun task => { task with listening := true } with
          taskControls := Function.update s.taskControls task.job (some h) } []
  | waits (k : Nat) (name : String) : task.kind = .pull → task.live = true →
      drain task.waiting task.queue = some true →
      Moves s h task (.pull k name)
        (s.updateTask h fun task => { task with queue := [], waiting := true }) []
  | works (k : Nat) (name : String) : task.kind = .pull → task.live = true →
      drain task.waiting task.queue = some false →
      Moves s h task (.pull k name)
        (s.updateTask h fun task => { task with queue := [], waiting := false }) [.worked task.card]
  | cancelled (k : Nat) (name : String) : task.kind = .pull → task.live = true →
      drain task.waiting task.queue = none →
      Moves s h task (.pull k name)
        (((s.updateTask h EngineTask.stop).closeChannel task true).pullFailed task.card name) []
  | pullEnd (k : Nat) (name : String) (ok : Bool) : task.kind = .pull → task.live = true →
      Moves s h task (.pullEnd k name ok)
        ((((s.hearStart h task name).updateTask h EngineTask.stop).closeChannel task ok).pullEnded
          task.card name ok) []
  | accepted (k : Nat) : task.kind = .push → task.live = true → task.left = none →
      Moves s h task (.accepted k)
        (s.updateTask h fun task => { task with left := some task.smalls }) []
  | small (k left : Nat) : task.kind = .push → task.live = true → task.left = some (left + 1) →
      ¬ (task.large = true ∧ (s.flags task.gate).paused = true) →
      Moves s h task (.small k) (s.updateTask h fun task => { task with left := some left })
        [.worked task.card]
  | smallFailed (k c : Nat) : task.kind = .push → task.live = true → task.card = some c →
      (∃ left, task.left = some (left + 1)) →
      Moves s h task (.smallFailed k)
        (if s.kindOf c = some .batchPush then
          (s.updateTask h fun task => { task with left := some 0 }).updateCard c fun card =>
            card.finishOldest .failed
        else
          (s.updateTask h fun task => { task with left := some 0 }).updateCard c fun card =>
            card.apply (.failed none)) []
  | unset (k : Nat) : Moves s h task (.check k) s []
  | check (k c : Nat) (card : ControlCard) : task.kind = .push → task.live = true →
      task.card = some c → s.cards[c]? = some card → card.flag = some true →
      Moves s h task (.check k) (s.pushFailed h task c) []
  | done (k c : Nat) : task.kind = .push → task.live = true → task.card = some c →
      task.started = true → Moves s h task (.pushEnd k true) (s.pushDone h task c) []
  | failed (k c : Nat) : task.kind = .push → task.live = true → task.card = some c →
      Moves s h task (.pushEnd k false) (s.pushFailed h task c) []
  | serve (k : Nat) (name : String) : task.kind = .source → task.started = false →
      Moves s h task (.serve k name)
        ((s.updateTask h (EngineTask.serve (s.servedGate h task))).handleServed h task name) []
  | dropped (k : Nat) : task.kind = .source → task.live = true →
      Moves s h task (.fetch k) (s.sourceEnded h task false) []
  | held (k : Nat) : task.kind = .source → task.live = true →
      Moves s h task (.fetch k)
        (s.updateTask h fun task => { task with deferred := task.deferred + 1 }) []
  | fetch (k : Nat) : task.kind = .source → task.live = true →
      (s.flags task.gate).paused = false → Moves s h task (.fetch k) s [.worked task.card]
  | forget (k : Nat) : task.kind = .source → 0 < task.deferred →
      Moves s h task (.wake k)
        (s.updateTask h fun task => { task with deferred := task.deferred - 1 }) []
  | wake (k : Nat) : task.kind = .source → 0 < task.deferred →
      (s.flags task.gate).paused = false →
      Moves s h task (.wake k)
        (s.updateTask h fun task => { task with deferred := task.deferred - 1 }) [.worked task.card]
  | received (k : Nat) : task.kind = .source → task.live = true →
      Moves s h task (.received k) (s.sourceEnded h task true) []
  | lost (k : Nat) : task.kind = .source → task.live = true →
      Moves s h task (.lost k) (s.sourceEnded h task false) []
  | started (k : Nat) (name : String) : task.live = true → task.kind ≠ .source →
      (task.kind = .push → task.left ≠ none) →
      Moves s h task (.started k name) (s.handleStarted h task name) []

section Moving

variable {s next : ControlDesk} {h : Nat} {task : EngineTask} {input : ControlInput}
  {emitted : List ControlEvent}

theorem task_step_cases (hnext : s.taskStep h task input = some (next, emitted)) :
    Moves s h task input next emitted := by
  cases input with rw [taskStep] at hnext
  | newCard | refused | queueTimeout | metaResp | pushFiles | metaReq | batchTick | batchEnd | act =>
    cases hnext
  | register k =>
    obtain ⟨hmeets, rfl, rfl⟩ := when_answer hnext
    exact .register k hmeets.1 hmeets.2.1
  | pull k name =>
    obtain ⟨hmeets, hnext⟩ := of_when hnext
    split at hnext
    · next waiting hdrain =>
      cases waiting with
      | true =>
        obtain ⟨rfl, rfl⟩ := answer_inj hnext
        exact .waits k name hmeets.1 hmeets.2.1 hdrain
      | false =>
        obtain ⟨rfl, rfl⟩ := answer_inj hnext
        exact .works k name hmeets.1 hmeets.2.1 hdrain
    · next hdrain =>
      obtain ⟨rfl, rfl⟩ := answer_inj hnext
      exact .cancelled k name hmeets.1 hmeets.2.1 hdrain
  | pullEnd k name ok =>
    obtain ⟨hmeets, rfl, rfl⟩ := when_answer hnext
    exact .pullEnd k name ok hmeets.1 hmeets.2.1
  | accepted k =>
    obtain ⟨hmeets, rfl, rfl⟩ := when_answer hnext
    exact .accepted k hmeets.1 hmeets.2.1 hmeets.2.2
  | small k =>
    split at hnext
    · next left hleft =>
      obtain ⟨hmeets, hnext⟩ := of_when hnext
      obtain ⟨hfree, rfl, rfl⟩ := unless_answer hnext
      exact .small k left hmeets.1 hmeets.2 hleft hfree
    · cases hnext
  | smallFailed k =>
    split at hnext
    · next c left hcard hleft =>
      obtain ⟨hmeets, hnext⟩ := of_when hnext
      have hmove := Moves.smallFailed (s := s) (h := h) k c hmeets.1 hmeets.2 hcard ⟨left, hleft⟩
      dsimp only at hnext
      split at hnext
      · next hbatch =>
        obtain ⟨rfl, rfl⟩ := answer_inj hnext
        exact (if_pos hbatch ▸ hmove :)
      · next hbatch =>
        obtain ⟨rfl, rfl⟩ := answer_inj hnext
        exact (if_neg hbatch ▸ hmove :)
    · cases hnext
  | check k =>
    split at hnext
    · next c hcard =>
      obtain ⟨hmeets, hnext⟩ := of_when hnext
      split at hnext
      · next hflag =>
        obtain ⟨rfl, rfl⟩ := answer_inj hnext
        cases hfound : s.cards[c]? with
        | none => simp [hfound] at hflag
        | some card =>
          exact .check k c card hmeets.1 hmeets.2.1 hcard hfound (by
            simpa [hfound] using hflag)
      · obtain ⟨rfl, rfl⟩ := answer_inj hnext
        exact .unset k
    · cases hnext
  | pushEnd k ok =>
    split at hnext
    · next c hcard =>
      obtain ⟨hmeets, rfl, rfl⟩ := when_answer hnext
      cases ok with
      | true => exact .done k c hmeets.1 hmeets.2.1 hcard (hmeets.2.2 rfl).2
      | false => exact .failed k c hmeets.1 hmeets.2.1 hcard
    · cases hnext
  | serve k name =>
    obtain ⟨hmeets, rfl, rfl⟩ := when_answer hnext
    exact .serve k name hmeets.1 hmeets.2
  | fetch k =>
    obtain ⟨hmeets, hnext⟩ := of_when hnext
    split at hnext
    · obtain ⟨rfl, rfl⟩ := answer_inj hnext
      exact .dropped k hmeets.1 hmeets.2
    · split at hnext
      · obtain ⟨rfl, rfl⟩ := answer_inj hnext
        exact .held k hmeets.1 hmeets.2
      · next hfree =>
        obtain ⟨rfl, rfl⟩ := answer_inj hnext
        exact .fetch k hmeets.1 hmeets.2 (by simpa using hfree)
  | wake k =>
    obtain ⟨hmeets, hnext⟩ := of_when hnext
    dsimp only at hnext
    split at hnext
    · obtain ⟨-, rfl, rfl⟩ := when_answer hnext
      exact .forget k hmeets.1 hmeets.2
    · next hfree =>
      obtain ⟨rfl, rfl⟩ := answer_inj hnext
      exact .wake k hmeets.1 hmeets.2 (by simpa using hfree)
  | received k =>
    obtain ⟨hmeets, rfl, rfl⟩ := when_answer hnext
    exact .received k hmeets.1 hmeets.2
  | lost k =>
    obtain ⟨hmeets, rfl, rfl⟩ := when_answer hnext
    exact .lost k hmeets.1 hmeets.2
  | started k name =>
    obtain ⟨hmeets, rfl, rfl⟩ := when_answer hnext
    obtain ⟨hlive, hkind⟩ := hmeets
    refine .started k name hlive ?_ ?_
    · rcases hkind with hkind | ⟨hkind, -⟩
      · simp [hkind]
      · simp [hkind]
    · intro hpush
      rcases hkind with hkind | ⟨-, hleft⟩
      · rw [hkind] at hpush
        cases hpush
      · exact hleft

theorem Wired.hear_start (hs : s.Wired) (htask : s.tasks[h]? = some task)
    (hkind : task.kind ≠ .source) (name : String) : (s.hearStart h task name).Wired := by
  unfold hearStart
  split
  · exact hs
  · exact hs.handle_started htask hkind

theorem Wired.close_channel (hs : s.Wired) (ok : Bool) : (s.closeChannel task ok).Wired := by
  unfold closeChannel
  split
  · exact hs.set_channel fun k hk => by cases hk
  · exact hs

/-- A file that is served looks at the flags of its push. -/
theorem served_gate {push : Nat} {owner : EngineTask} (hs : s.Wired)
    (htask : s.tasks[h]? = some task) (hkind : task.kind = .source)
    (hoffer : task.offer = some push) (howner : s.tasks[push]? = some owner)
    (hlive : owner.live = true) : s.servedGate h task = push := by
  have hshape := hs.shape h task htask
  unfold Shape at hshape
  rw [hkind, hoffer] at hshape
  obtain ⟨owner', howner', -, hlarge, -⟩ := hshape
  obtain rfl := Option.some.inj (howner.symm.trans howner')
  unfold servedGate
  rw [hoffer]
  dsimp only
  rw [howner]
  simp [hlive, hlarge]

theorem Wired.moves (hs : s.Wired) (htask : s.tasks[h]? = some task)
    (hserve : ∀ k name, input = .serve k name → s.AttachesRight task)
    (hmove : Moves s h task input next emitted) : next.Wired := by
  cases hmove with
  | register k hkind hlive =>
    have hnext := hs.update_started (g := fun task => { task with listening := true }) htask
      (not_source_of_pull hkind) rfl rfl rfl rfl rfl rfl rfl
    refine hnext.set_channel fun place hplace => ?_
    obtain rfl := Option.some.inj hplace
    exact ⟨{ task with listening := true }, by
      rw [task_update_task, htask, Option.map_some, if_pos rfl], rfl, hkind⟩
  | waits k name hkind | works k name hkind =>
    exact hs.update_started htask (not_source_of_pull hkind) rfl rfl rfl rfl rfl rfl rfl
  | cancelled k name hkind hlive =>
    exact (hs.end_task.close_channel true).pull_failed task.card
  | pullEnd k name ok hkind hlive =>
    have hheard := hs.hear_start htask (by simp [hkind]) name
    exact (hheard.end_task.close_channel ok).pull_ended task.card
  | accepted k hkind | small k left hkind =>
    exact hs.update_started htask (not_source_of_push hkind) rfl rfl rfl rfl rfl rfl rfl
  | smallFailed k c hkind hlive hcard =>
    have hnext := hs.update_started (g := fun task => { task with left := some 0 }) htask
      (not_source_of_push hkind) rfl rfl rfl rfl rfl rfl rfl
    split
    · next hbatch =>
      refine hnext.update_same_card fun card hfound => ControlCard.finish_oldest_same (.inr ?_)
      exact Option.some.inj ((kind_of_card hfound).symm.trans hbatch)
    · exact hnext.apply_card _
  | unset k => exact hs
  | check k c card hkind hlive => exact hs.push_failed
  | done k c hkind hlive => exact hs.push_done
  | failed k c hkind hlive => exact hs.push_failed
  | serve k name hkind hnew =>
    have hmeets := hserve k name rfl
    unfold AttachesRight at hmeets
    cases hoffer : task.offer with
    | none =>
      rw [hoffer] at hmeets
      have hgate : s.servedGate h task = h := by
        unfold servedGate
        rw [hoffer]
      rw [hgate]
      exact hs.serve_own hmeets htask hkind hnew hoffer
    | some push =>
      rw [hoffer] at hmeets
      obtain ⟨⟨owner, howner, hlive⟩, c, hcard, card, hfound, hattach⟩ := hmeets
      rw [served_gate hs htask hkind hoffer howner hlive]
      exact hs.serve_push htask hkind hnew hoffer howner hcard hfound hattach
  | dropped k hkind hlive | received k hkind hlive | lost k hkind hlive =>
    exact hs.source_ended
  | held k hkind hlive =>
    exact hs.update_started htask (fun h => hs.started_of_live htask h (.inl hlive)) rfl rfl rfl
      rfl rfl rfl rfl
  | fetch k => exact hs
  | forget k hkind hdeferred | wake k hkind hdeferred =>
    exact hs.update_started htask (fun h => hs.started_of_live htask h (.inr hdeferred)) rfl rfl
      rfl rfl rfl rfl rfl
  | started k name hlive hkind => exact hs.handle_started htask hkind

/-- What `step` does where no task takes a step, a branch each. -/
inductive DeskMoves (s : ControlDesk) : ControlInput → ControlDesk → List ControlEvent → Prop where
  | newCard (kind : CardKind) (peer : Nat) : kind ≠ .served →
      DeskMoves s (.newCard kind peer) { s with cards := s.cards ++ [ControlCard.new kind peer] } []
  | refused (c : Nat) : s.Idle c → s.kindOf c = some .download →
      DeskMoves s (.refused c) (s.updateCard c fun card => card.apply (.failed none)) []
  | queueTimeout (c : Nat) : s.Idle c →
      DeskMoves s (.queueTimeout c)
        (s.updateCard c fun card => (card.apply .queueTimeout).clearFlag) []
  | metaResp (c job : Nat) (card : ControlCard) : s.cards[c]? = some card →
      (card.kind = .download ∧ card.state = .pending ∧ s.Idle c) ∨ card.kind = .folderDownload ∨
        (card.kind = .batchDownload ∧ card.flag ≠ none ∧ s.Quiet c) →
      DeskMoves s (.metaResp c job)
        { s with tasks := s.tasks ++ [newTask .pull job (some c) s.tasks.length] } []
  | pushFiles (c : Nat) (large : Bool) (smalls : Nat) (card : ControlCard) :
      s.cards[c]? = some card → (card.kind = .push ∨ card.kind = .batchPush) →
      card.flag ≠ none → s.Idle c →
      DeskMoves s (.pushFiles c large smalls)
        { s with
          tasks := s.tasks ++ [{ newTask .push s.nextJobId (some c) s.tasks.length with
            large, smalls }]
          flags := Function.update s.flags s.tasks.length ⟨false, false⟩
          nextJobId := s.nextJobId + 1
          batchKey := if card.kind = .batchPush then
            Function.update s.batchKey card.peer (some c) else s.batchKey
          singleKey := if card.kind = .batchPush then s.singleKey
            else Function.update s.singleKey card.peer (some c) } []
  | metaReqOwn : DeskMoves s (.metaReq none)
      { s with
        tasks := s.tasks ++ [{ newTask .source s.nextSourceJobId none s.tasks.length with
          live := false }]
        flags := Function.update s.flags s.tasks.length ⟨false, false⟩
        nextSourceJobId := s.nextSourceJobId + 1 } []
  | metaReqPush (push : Nat) (owner : EngineTask) : s.tasks[push]? = some owner →
      owner.kind = .push → owner.live = true → owner.large = true →
      DeskMoves s (.metaReq (some push))
        { s with
          tasks := s.tasks ++ [{ newTask .source s.nextSourceJobId owner.card s.tasks.length with
            live := false, offer := some push }]
          flags := Function.update s.flags s.tasks.length ⟨false, false⟩
          nextSourceJobId := s.nextSourceJobId + 1 } []
  | batchTick (c : Nat) (card : ControlCard) : s.cards[c]? = some card →
      card.kind = .batchDownload → card.flag = some true →
      DeskMoves s (.batchTick c)
        { s.updateCard c ControlCard.clearFlag with
          tasks := s.tasks.map fun task =>
            if task.card = some c then task.stop else task } []
  | batchEnd (c : Nat) (ok : Bool) :
      s.kindOf c = some .batchDownload ∨ s.kindOf c = some .folderDownload → s.Quiet c →
      DeskMoves s (.batchEnd c ok) (s.updateCard c fun card =>
        (card.apply (if ok then .finished else .failed none)).clearFlag) []
  | refusedAct (c : Nat) (action : TaskControl) : DeskMoves s (.act c action) s []
  | act (c : Nat) (action : TaskControl) (card : ControlCard) (next : ControlDesk)
      (emitted : List ControlEvent) : s.cards[c]? = some card →
      s.transferAction c card action = some (next, emitted) →
      DeskMoves s (.act c action) next emitted

/-- The task that takes the step. -/
def mover : ControlInput → Option Nat
  | .register h | .pull h _ | .pullEnd h _ _ | .accepted h | .small h | .smallFailed h | .check h
  | .pushEnd h _ | .serve h _ | .fetch h | .wake h | .received h | .lost h | .started h _ => some h
  | _ => none

/-- A step is one of a task or one of the desk. -/
theorem step_cases (hnext : step s input = some (next, emitted)) :
    DeskMoves s input next emitted ∨
      ∃ h task, mover input = some h ∧ s.tasks[h]? = some task ∧
        Moves s h task input next emitted := by
  have htask : ∀ h, mover input = some h →
      (s.tasks[h]?).bind (fun task => s.taskStep h task input) = some (next, emitted) →
      ∃ h task, mover input = some h ∧ s.tasks[h]? = some task ∧
        Moves s h task input next emitted := by
    intro h hmover hstep
    obtain ⟨task, htask, hstep⟩ := Option.bind_eq_some_iff.mp hstep
    exact ⟨h, task, hmover, htask, task_step_cases hstep⟩
  cases input with
  | register h | pull h _ | pullEnd h _ _ | accepted h | small h | smallFailed h | check h
  | pushEnd h _ | serve h _ | fetch h | wake h | received h | lost h | started h _ =>
    exact .inr (htask h rfl hnext)
  | newCard kind peer =>
    rw [step] at hnext
    obtain ⟨hkind, rfl, rfl⟩ := unless_answer hnext
    exact .inl (.newCard kind peer hkind)
  | refused c =>
    rw [step] at hnext
    obtain ⟨hmeets, rfl, rfl⟩ := when_answer hnext
    exact .inl (.refused c hmeets.1 hmeets.2)
  | queueTimeout c =>
    rw [step] at hnext
    obtain ⟨hidle, rfl, rfl⟩ := when_answer hnext
    exact .inl (.queueTimeout c hidle)
  | metaResp c job =>
    rw [step] at hnext
    split at hnext
    · cases hnext
    · next card hcard =>
      obtain ⟨hmeets, rfl, rfl⟩ := when_answer hnext
      exact .inl (.metaResp c job card hcard hmeets)
  | pushFiles c large smalls =>
    rw [step] at hnext
    split at hnext
    · cases hnext
    · next card hcard =>
      obtain ⟨hmeets, rfl, rfl⟩ := when_answer hnext
      exact .inl (.pushFiles c large smalls card hcard hmeets.1 hmeets.2.1 hmeets.2.2)
  | metaReq offer =>
    cases offer with
    | none =>
      rw [step] at hnext
      obtain ⟨rfl, rfl⟩ := answer_inj hnext
      exact .inl .metaReqOwn
    | some push =>
      rw [step] at hnext
      split at hnext
      · cases hnext
      · next owner howner =>
        obtain ⟨hmeets, rfl, rfl⟩ := when_answer hnext
        exact .inl (.metaReqPush push owner howner hmeets.1 hmeets.2.1 hmeets.2.2)
  | batchTick c =>
    rw [step] at hnext
    cases hcard : s.cards[c]? with
    | none => simp [hcard] at hnext
    | some card =>
      rw [hcard] at hnext
      obtain ⟨hmeets, rfl, rfl⟩ := when_answer hnext
      have hboth : card.kind = .batchDownload ∧ card.flag = some true := by
        simpa using hmeets
      exact .inl (.batchTick c card hcard hboth.1 hboth.2)
  | batchEnd c ok =>
    rw [step] at hnext
    obtain ⟨hmeets, rfl, rfl⟩ := when_answer hnext
    exact .inl (.batchEnd c ok hmeets.1 hmeets.2)
  | act c action =>
    rw [step] at hnext
    split at hnext
    · cases hnext
    · next card hcard =>
      cases haction : s.transferAction c card action with
      | none =>
        rw [haction] at hnext
        obtain ⟨rfl, rfl⟩ := answer_inj hnext
        exact .inl (.refusedAct c action)
      | some result =>
        rw [haction] at hnext
        obtain ⟨rfl, rfl⟩ := answer_inj hnext
        exact .inl (.act c action card _ _ hcard haction)

theorem clear_flag_plain {card : ControlCard} {ev : CardEvent} (h : card.Plain) :
    (card.apply ev).clearFlag.Plain :=
  ⟨h.unbound, fun _ => rfl, h.childless⟩

/-- A step keeps the tables wired. -/
theorem Wired.step {trace : List ControlEvent} (hs : s.Wired) (hmeets : Routed trace s input)
    (hnext : ControlDesk.step s input = some (next, emitted)) : next.Wired := by
  rcases step_cases hnext with hmove | ⟨h, task, hmover, htask, hmove⟩
  · cases hmove with
    | newCard kind peer =>
      exact hs.add_card hmeets (new_card_plain kind peer).1 (new_card_plain kind peer).2
    | refused c => exact hs.apply_card _
    | queueTimeout c | batchEnd c ok =>
      exact hs.update_same_card fun card _ => ⟨rfl, clear_flag_plain, fun _ h => h⟩
    | metaResp c job card hcard hone =>
      refine hs.add_task _ hmeets ?_ ?_
      · refine ⟨rfl, c, card, rfl, hcard, ?_⟩
        rcases hone with ⟨hkind, -⟩ | hkind | ⟨hkind, -⟩
        · exact .inl hkind
        · exact .inr (.inr hkind)
        · exact .inr (.inl hkind)
      · intro k other d found hother hd hd' hfound
        obtain rfl := Option.some.inj hd
        obtain rfl := Option.some.inj (hfound.symm.trans hcard)
        rcases hone with ⟨hkind, -, hidle⟩ | hkind | ⟨hkind, -⟩
        · exact absurd hd' (hidle other (List.mem_of_getElem? hother))
        · simp [hkind, newTask]
        · simp [hkind, newTask]
    | pushFiles c large smalls card hcard hone hflag hidle =>
      have hadded := hs.add_task { newTask .push s.nextJobId (some c) s.tasks.length with
        large, smalls } hmeets ⟨rfl, c, card, rfl, hcard, hone⟩ fun k other d found hother hd hd' =>
          absurd (hd'.trans hd.symm) (by
            obtain rfl := Option.some.inj hd
            exact hidle other (List.mem_of_getElem? hother))
      exact { hadded with }
    | metaReqOwn =>
      have hadded := hs.add_task { newTask .source s.nextSourceJobId none s.tasks.length
        with live := false } hmeets (.inl ⟨rfl, rfl, rfl, rfl, rfl⟩) fun k other d found _ hd => by
          cases hd
      exact { hadded with }
    | metaReqPush push owner howner hkind hlive hlarge =>
      have hadded := hs.add_task { newTask .source s.nextSourceJobId owner.card
        s.tasks.length with live := false, offer := some push } hmeets
        ⟨owner, concat_old howner, hkind, hlarge, rfl, .inl ⟨rfl, rfl, rfl, rfl⟩⟩ ?_
      · exact { hadded with }
      · intro k other d found hother hd hd' hfound hone
        have hshape := hs.shape push owner howner
        unfold Shape at hshape
        rw [hkind] at hshape
        obtain ⟨-, d', found', hd'', hfound', hpush⟩ := hshape
        have hd : owner.card = some d := hd
        obtain rfl := Option.some.inj (hd.symm.trans hd'')
        obtain rfl := Option.some.inj (hfound.symm.trans hfound')
        rcases hone with hone | hone | ⟨hone, -⟩
        · rcases hpush with hpush | hpush <;> simp [hone] at hpush
        · rcases hpush with hpush | hpush <;> simp [hone] at hpush
        · cases hone
    | batchTick c card hcard hkind hflag =>
      have hcleared := hs.clear_flag (c := c)
      refine hcleared.retask (G := fun _ task => if task.card = some c then task.stop else task)
        (fun k => List.getElem?_map ..) fun k before hbefore => ?_
      split
      · exact (hcleared.same_task hbefore).stop
      · exact hcleared.same_task hbefore
    | refusedAct c action => exact hs
    | act c action card next emitted hcard haction => exact hs.transfer_action hcard haction
  · refine hs.moves htask (fun k name hinput => ?_) hmove
    subst hinput
    obtain rfl := Option.some.inj hmover
    exact hmeets task htask

end Moving

end ControlDesk

end LocalTrans.Desktop
