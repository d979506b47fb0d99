import LocalTrans.Shell.Controls

/-!
# The tables of the desktop

The tables of `ControlDesk` are keyed by ids that this process and its peers give. `Wired` is what
they keep to as long as no id is used twice: an id is that of one task and of no card, and a table
that names an id for a card has it from a task behind the card. Each operation of the shell has a
lemma that it keeps the desk wired.
-/

namespace LocalTrans.Desktop

open Foundation

section Lists

variable {α : Type*} {l : List α} {a b : α} {k : Nat}

theorem concat_old (h : l[k]? = some a) : (l ++ [b])[k]? = some a := by
  rw [List.getElem?_append_left (List.getElem?_eq_some_iff.mp h).1]
  exact h

theorem concat_cases (h : (l ++ [b])[k]? = some a) : l[k]? = some a ∨ (k = l.length ∧ a = b) := by
  rcases Nat.lt_trichotomy k l.length with hlt | rfl | hlt
  · rw [List.getElem?_append_left hlt] at h
    exact .inl h
  · rw [List.getElem?_concat_length] at h
    exact .inr ⟨rfl, (Option.some.inj h).symm⟩
  · rw [List.getElem?_eq_none (by simp; omega)] at h
    cases h

end Lists

namespace ControlDesk

/-- The id is that of no task and no card. -/
def Unused (s : ControlDesk) (job : Nat) : Prop :=
  (∀ task ∈ s.tasks, task.job ≠ job) ∧ ∀ k < s.cards.length, job ≠ cardId k

/-- The id of the next card is that of no task. -/
def NewPlace (s : ControlDesk) : Prop :=
  ∀ task ∈ s.tasks, task.job ≠ cardId s.cards.length
deriving Decidable

section Reading

variable {s : ControlDesk} {c h k : Nat} {f : ControlCard → ControlCard}
  {g : EngineTask → EngineTask}

theorem card_update_card :
    (s.updateCard c f).cards[k]? = (s.cards[k]?).map fun card => if c = k then f card else card := by
  show (s.cards.modify c f)[k]? = _
  rw [List.getElem?_modify]
  rfl

theorem task_update_task :
    (s.updateTask h g).tasks[k]? = (s.tasks[k]?).map fun task => if h = k then g task else task := by
  show (s.tasks.modify h g)[k]? = _
  rw [List.getElem?_modify]
  rfl

theorem cards_length_update_card : (s.updateCard c f).cards.length = s.cards.length :=
  List.length_modify ..

theorem tasks_length_update_task : (s.updateTask h g).tasks.length = s.tasks.length :=
  List.length_modify ..

/-- A card after an update is a card before it. -/
theorem card_of_update_card {card : ControlCard} (h : (s.updateCard c f).cards[k]? = some card) :
    ∃ before, s.cards[k]? = some before ∧ card = if c = k then f before else before := by
  rw [card_update_card, Option.map_eq_some_iff] at h
  obtain ⟨before, hbefore, rfl⟩ := h
  exact ⟨before, hbefore, rfl⟩

/-- A task after an update is a task before it. -/
theorem task_of_update_task {task : EngineTask} (h' : (s.updateTask h g).tasks[k]? = some task) :
    ∃ before, s.tasks[k]? = some before ∧ task = if h = k then g before else before := by
  rw [task_update_task, Option.map_eq_some_iff] at h'
  obtain ⟨before, hbefore, rfl⟩ := h'
  exact ⟨before, hbefore, rfl⟩

end Reading

/-- A started task behind the card goes by the id. -/
def Backed (s : ControlDesk) (job c : Nat) : Prop :=
  ∃ (h : Nat) (task : EngineTask), s.tasks[h]? = some task ∧ task.job = job ∧
    task.card = some c ∧ task.started = true

/-- What a task is tied to. The flags it looks at are those of a task behind the same card. -/
def Shape (s : ControlDesk) (h : Nat) (task : EngineTask) : Prop :=
  match task.kind, task.offer with
  | .pull, _ => task.gate = h ∧ ∃ c card, task.card = some c ∧ s.cards[c]? = some card ∧
      (card.kind = .download ∨ card.kind = .batchDownload ∨ card.kind = .folderDownload)
  | .push, _ => task.gate = h ∧ ∃ c card, task.card = some c ∧ s.cards[c]? = some card ∧
      (card.kind = .push ∨ card.kind = .batchPush)
  | .source, none =>
    (task.started = false ∧ task.live = false ∧ task.deferred = 0 ∧ task.card = none ∧
      task.gate = h) ∨
      (task.started = true ∧ task.gate = h ∧ ∃ c card, task.card = some c ∧
        s.cards[c]? = some card ∧ card.kind = .served)
  | .source, some push => ∃ owner, s.tasks[push]? = some owner ∧ owner.kind = .push ∧
      owner.large = true ∧ task.card = owner.card ∧
        ((task.started = false ∧ task.live = false ∧ task.deferred = 0 ∧ task.gate = h) ∨
          (task.started = true ∧ task.gate = push))

end ControlDesk

namespace ControlCard

/-- The ids that a card names. -/
def names (card : ControlCard) : List Nat :=
  card.engineId.toList ++ card.children.filterMap ControlChild.job ++ card.offerJob.toList

/-- What a card of a kind does not have. -/
structure Plain (card : ControlCard) : Prop where
  unbound : card.kind = .batchDownload ∨ card.kind = .folderDownload ∨ card.kind = .batchPush →
    card.engineId = none
  noFlag : card.kind = .download ∨ card.kind = .folderDownload ∨ card.kind = .served →
    card.flag = none
  childless : card.kind ≠ .batchDownload → card.kind ≠ .batchPush → card.children = []

end ControlCard

namespace ControlDesk

/-- The tables of a desk: ids are those of one task and of no card, a table that names an id has it
from a task behind the card, and the cards of one task have one. -/
structure Wired (s : ControlDesk) : Prop where
  apart : ∀ (h k : Nat) (task other : EngineTask), s.tasks[h]? = some task →
    s.tasks[k]? = some other → task.job = other.job → h = k
  offCards : ∀ task ∈ s.tasks, ∀ k < s.cards.length, task.job ≠ cardId k
  bound : ∀ job c, s.engineToCard job = some c → s.Backed job c
  parent : ∀ job c, s.pendingChildren job = some c →
    s.Backed job c ∧ s.kindOf c = some .batchPush
  named : ∀ (c : Nat) (card : ControlCard), s.cards[c]? = some card →
    ∀ job ∈ card.names, s.Backed job c
  channel : ∀ job h, s.taskControls job = some h →
    ∃ task, s.tasks[h]? = some task ∧ task.job = job ∧ task.kind = .pull
  shape : ∀ h task, s.tasks[h]? = some task → s.Shape h task
  plain : ∀ (c : Nat) (card : ControlCard), s.cards[c]? = some card → card.Plain
  single : ∀ (h k : Nat) (task other : EngineTask) (c : Nat) (card : ControlCard),
    s.tasks[h]? = some task → s.tasks[k]? = some other → task.card = some c →
      other.card = some c → s.cards[c]? = some card →
        card.kind = .download ∨ card.kind = .served ∨
          (task.kind = .push ∧ other.kind = .push) → h = k

/-- What a task keeps as it goes on. A file that is served starts only when it is attached. -/
structure SameTask (before after : EngineTask) : Prop where
  kind : after.kind = before.kind
  job : after.job = before.job
  card : after.card = before.card
  gate : after.gate = before.gate
  large : after.large = before.large
  offer : after.offer = before.offer
  started : before.started = true → after.started = true
  source : before.kind = .source → after.started = before.started ∧
    (before.started = false → after.live = false ∧ after.deferred = 0)

/-- What a card keeps: it names no new ids. -/
structure SameCard (before after : ControlCard) : Prop where
  kind : after.kind = before.kind
  plain : before.Plain → after.Plain
  names : ∀ job ∈ after.names, job ∈ before.names

section Frames

variable {s : ControlDesk} {c h : Nat} {f : ControlCard → ControlCard}
  {g : EngineTask → EngineTask}

theorem Wired.update_card (hs : s.Wired)
    (hf : ∀ card, s.cards[c]? = some card → (f card).kind = card.kind ∧ (f card).Plain ∧
      ∀ job ∈ (f card).names, s.Backed job c) : (s.updateCard c f).Wired := by
  -- a card before the update has the kind of the card after it
  have hkind : ∀ k before, s.cards[k]? = some before →
      (if c = k then f before else before).kind = before.kind := by
    intro k before hbefore
    split
    · next heq =>
      subst heq
      exact (hf before hbefore).1
    · rfl
  have hcards : ∀ k before, s.cards[k]? = some before →
      (s.updateCard c f).cards[k]? = some (if c = k then f before else before) := by
    intro k before hbefore
    rw [card_update_card, hbefore]
    rfl
  refine ⟨hs.apart, ?_, hs.bound, ?_, ?_, hs.channel, ?_, ?_, ?_⟩
  · intro task htask k hk
    exact hs.offCards task htask k (cards_length_update_card ▸ hk)
  · intro job k hk
    obtain ⟨hbacked, hbatch⟩ := hs.parent job k hk
    obtain ⟨card, hcard, hone⟩ := Option.map_eq_some_iff.mp hbatch
    refine ⟨hbacked, ?_⟩
    show ((s.updateCard c f).cards[k]?).map ControlCard.kind = _
    rw [hcards k card hcard, Option.map_some, hkind k card hcard, hone]
  · intro k card hcard job hjob
    obtain ⟨before, hbefore, rfl⟩ := card_of_update_card hcard
    split at hjob
    · next heq =>
      subst heq
      exact (hf before hbefore).2.2 job hjob
    · exact hs.named k before hbefore job hjob
  · intro k task htask
    have hshape := hs.shape k task htask
    unfold Shape at hshape ⊢
    split
    · next hpull =>
      rw [hpull] at hshape
      obtain ⟨hgate, d, card, hcard, hfound, hone⟩ := hshape
      exact ⟨hgate, d, _, hcard, hcards d card hfound, (hkind d card hfound) ▸ hone⟩
    · next hpush =>
      rw [hpush] at hshape
      obtain ⟨hgate, d, card, hcard, hfound, hone⟩ := hshape
      exact ⟨hgate, d, _, hcard, hcards d card hfound, (hkind d card hfound) ▸ hone⟩
    · next hsource hoffer =>
      rw [hsource, hoffer] at hshape
      rcases hshape with hnew | ⟨hstarted, hgate, d, card, hcard, hfound, hone⟩
      · exact .inl hnew
      · exact .inr ⟨hstarted, hgate, d, _, hcard, hcards d card hfound,
          (hkind d card hfound).trans hone⟩
    · next hsource hoffer =>
      rw [hsource, hoffer] at hshape
      exact hshape
  · intro k card hcard
    obtain ⟨before, hbefore, rfl⟩ := card_of_update_card hcard
    split
    · next heq =>
      subst heq
      exact (hf before hbefore).2.1
    · exact hs.plain k before hbefore
  · intro k l task other d card htask hother hd hd' hcard hone
    obtain ⟨before, hbefore, rfl⟩ := card_of_update_card hcard
    rw [hkind d before hbefore] at hone
    exact hs.single k l task other d before htask hother hd hd' hbefore hone

/-- A change of a card that names no new ids. -/
theorem Wired.update_same_card (hs : s.Wired)
    (hf : ∀ card, s.cards[c]? = some card → SameCard card (f card)) :
    (s.updateCard c f).Wired :=
  hs.update_card fun card hcard =>
    ⟨(hf card hcard).kind, (hf card hcard).plain (hs.plain c card hcard), fun job hjob =>
      hs.named c card hcard job ((hf card hcard).names job hjob)⟩

/-- Tasks that each keep to what they are tied to. -/
theorem Wired.retask {tasks : List EngineTask} {G : Nat → EngineTask → EngineTask} (hs : s.Wired)
    (htasks : ∀ k : Nat, tasks[k]? = (s.tasks[k]?).map (G k))
    (hsame : ∀ (k : Nat) (before : EngineTask), s.tasks[k]? = some before →
      SameTask before (G k before)) : Wired { s with tasks } := by
  have hback : ∀ (k : Nat) (task : EngineTask), tasks[k]? = some task →
      ∃ before, s.tasks[k]? = some before ∧ task = G k before := by
    intro k task htask
    rw [htasks, Option.map_eq_some_iff] at htask
    obtain ⟨before, hbefore, rfl⟩ := htask
    exact ⟨before, hbefore, rfl⟩
  have hbacked : ∀ job d, s.Backed job d → Backed { s with tasks } job d := by
    rintro job d ⟨k, task, htask, hj, hcard, hstarted⟩
    have hkept := hsame k task htask
    refine ⟨k, G k task, ?_, hkept.job.trans hj, hkept.card.trans hcard, hkept.started hstarted⟩
    show tasks[k]? = _
    rw [htasks, htask]
    rfl
  refine ⟨?_, ?_, fun job d hd => hbacked job d (hs.bound job d hd),
    fun job d hd => ⟨hbacked job d (hs.parent job d hd).1, (hs.parent job d hd).2⟩,
    fun d card hcard job hjob => hbacked job d (hs.named d card hcard job hjob), ?_, ?_, hs.plain,
    ?_⟩
  · intro k l task other htask hother hjob
    obtain ⟨first, hfirst, rfl⟩ := hback k task htask
    obtain ⟨second, hsecond, rfl⟩ := hback l other hother
    rw [(hsame k first hfirst).job, (hsame l second hsecond).job] at hjob
    exact hs.apart k l first second hfirst hsecond hjob
  · intro task htask k hk
    obtain ⟨place, hplace⟩ := List.mem_iff_getElem?.mp htask
    obtain ⟨before, hbefore, rfl⟩ := hback place task hplace
    rw [(hsame place before hbefore).job]
    exact hs.offCards before (List.mem_of_getElem? hbefore) k hk
  · intro job k hk
    obtain ⟨task, htask, hjob, hkind⟩ := hs.channel job k hk
    refine ⟨G k task, ?_, (hsame k task htask).job.trans hjob, (hsame k task htask).kind.trans hkind⟩
    show tasks[k]? = _
    rw [htasks, htask]
    rfl
  · intro k task htask
    obtain ⟨before, hbefore, rfl⟩ := hback k task htask
    have hkept := hsame k before hbefore
    have hshape := hs.shape k before hbefore
    unfold Shape at hshape ⊢
    rw [hkept.kind, hkept.offer, hkept.gate, hkept.card]
    revert hshape
    cases hkind : before.kind with
    | pull => exact id
    | push => exact id
    | source =>
      obtain ⟨hstarted, hnew⟩ := hkept.source hkind
      cases hoffer : before.offer with
      | none =>
        dsimp only
        rintro (⟨hfalse, -, -, hcard⟩ | ⟨htrue, hrest⟩)
        · obtain ⟨hlive, hdeferred⟩ := hnew hfalse
          exact .inl ⟨hstarted.trans hfalse, hlive, hdeferred, hcard⟩
        · exact .inr ⟨hstarted.trans htrue, hrest⟩
      | some push =>
        dsimp only
        rintro ⟨owner, howner, hpush, hlarge, hcard, hphase⟩
        have howned := hsame push owner howner
        refine ⟨G push owner, by rw [htasks, howner]; rfl, howned.kind.trans hpush,
          howned.large.trans hlarge, hcard.trans howned.card.symm, ?_⟩
        rcases hphase with ⟨hfalse, -, -, hgate⟩ | ⟨htrue, hgate⟩
        · obtain ⟨hlive, hdeferred⟩ := hnew hfalse
          exact .inl ⟨hstarted.trans hfalse, hlive, hdeferred, hgate⟩
        · exact .inr ⟨hstarted.trans htrue, hgate⟩
  · intro k l task other d card htask hother hd hd' hcard hone
    obtain ⟨first, hfirst, rfl⟩ := hback k task htask
    obtain ⟨second, hsecond, rfl⟩ := hback l other hother
    have hone' := hsame k first hfirst
    have htwo := hsame l second hsecond
    rw [hone'.card] at hd
    rw [htwo.card] at hd'
    rw [hone'.kind, htwo.kind] at hone
    exact hs.single k l first second d card hfirst hsecond hd hd' hcard hone

/-- A task that stays as it is keeps to what it is tied to. -/
theorem Wired.same_task {k : Nat} {task : EngineTask} (hs : s.Wired)
    (htask : s.tasks[k]? = some task) : SameTask task task := by
  refine ⟨rfl, rfl, rfl, rfl, rfl, rfl, id, fun hsource => ⟨rfl, fun hnew => ?_⟩⟩
  have hshape := hs.shape k task htask
  unfold Shape at hshape
  rw [hsource] at hshape
  cases hoffer : task.offer with
  | none =>
    rw [hoffer] at hshape
    rcases hshape with ⟨-, hlive, hdeferred, -⟩ | ⟨hstarted, -⟩
    · exact ⟨hlive, hdeferred⟩
    · simp [hnew] at hstarted
  | some push =>
    rw [hoffer] at hshape
    obtain ⟨_, _, _, _, _, ⟨-, hlive, hdeferred, -⟩ | ⟨hstarted, -⟩⟩ := hshape
    · exact ⟨hlive, hdeferred⟩
    · simp [hnew] at hstarted

theorem Wired.update_task (hs : s.Wired)
    (hg : ∀ task, s.tasks[h]? = some task → SameTask task (g task)) :
    (s.updateTask h g).Wired := by
  refine hs.retask (G := fun k task => if h = k then g task else task)
    (fun k => task_update_task) fun k before hbefore => ?_
  split
  · next heq =>
    subst heq
    exact hg before hbefore
  · exact hs.same_task hbefore

/-- A table of channels that is changed at one id. -/
theorem Wired.set_channel {job : Nat} {entry : Option Nat} (hs : s.Wired)
    (hentry : ∀ k, entry = some k → ∃ task, s.tasks[k]? = some task ∧ task.job = job ∧
      task.kind = .pull) :
    Wired { s with taskControls := Function.update s.taskControls job entry } := by
  refine { hs with channel := ?_ }
  intro id k hk
  by_cases heq : id = job
  · subst heq
    exact hentry k (by simpa using hk)
  · exact hs.channel id k (by simpa [Function.update_of_ne heq] using hk)

end Frames

end ControlDesk

/-- A child after `child_upsert` is the new one or was there before. -/
theorem mem_upsert_child {children : List ControlChild} {child found : ControlChild}
    (h : found ∈ upsertChild children child) : found = child ∨ found ∈ children := by
  unfold upsertChild at h
  split at h
  · exact (List.mem_or_eq_of_mem_set h).symm
  · rcases List.mem_append.mp h with h | h
    · exact .inr h
    · exact .inl (List.mem_singleton.mp h)

namespace ControlCard

variable {card : ControlCard} {ev : CardEvent} {child : ControlChild} {job : Nat}
  {state : ChildState}

theorem apply_same : ControlDesk.SameCard card (card.apply ev) :=
  ⟨rfl, fun h => { h with }, fun _ h => h⟩

/-- `recheck_parent_terminal` changes the state of a card only. -/
theorem recheck_eq (card : ControlCard) : ∃ state, card.recheck = { card with state } := by
  unfold recheck
  split
  · exact ⟨card.state, rfl⟩
  · split
    · exact ⟨_, rfl⟩
    · split
      · exact ⟨_, rfl⟩
      · exact ⟨_, rfl⟩

theorem upsert_names (h : job ∈ (card.upsert child).names) :
    job ∈ card.names ∨ child.job = some job := by
  unfold names at h ⊢
  simp only [List.mem_append, List.mem_filterMap] at h ⊢
  rcases h with (hengine | ⟨found, hmem, hjob⟩) | hoffer
  · exact .inl (.inl (.inl hengine))
  · rcases mem_upsert_child hmem with rfl | hold
    · exact .inr hjob
    · exact .inl (.inl (.inr ⟨found, hold, hjob⟩))
  · exact .inl (.inr hoffer)

theorem attach_names {name : String} {id : Nat} (h : id ∈ (card.attach name job).names) :
    id ∈ card.names ∨ id = job := by
  have hcases : id ∈ (card.upsert { name, job := some job, state := .active }).names ∨ id = job := by
    unfold attach names at h
    unfold names
    simp only [List.mem_append, Option.toList_some, List.mem_singleton] at h ⊢
    rcases h with h | h
    · exact .inl (.inl h)
    · exact .inr h
  rcases hcases with h | h
  · exact (upsert_names h).imp_right fun hjob => (Option.some.inj hjob).symm
  · exact .inr h

theorem recheck_names : card.recheck.names = card.names := by
  obtain ⟨state, h⟩ := recheck_eq card
  rw [h]
  rfl

theorem recheck_plain (h : card.Plain) : card.recheck.Plain := by
  obtain ⟨state, heq⟩ := recheck_eq card
  rw [heq]
  exact { h with }

theorem recheck_kind : card.recheck.kind = card.kind := by
  obtain ⟨state, h⟩ := recheck_eq card
  rw [h]

/-- A card of several files may get children. -/
theorem upsert_plain (child : ControlChild)
    (hkind : card.kind = .batchDownload ∨ card.kind = .batchPush)
    (h : card.Plain) : (card.upsert child).Plain := by
  refine ⟨h.unbound, h.noFlag, fun hdownload hpush => ?_⟩
  rcases hkind with hkind | hkind
  · exact absurd hkind hdownload
  · exact absurd hkind hpush

theorem upsert_same (child : ControlChild) (hjob : child.job = none)
    (hkind : card.kind = .batchDownload ∨ card.kind = .batchPush) : ControlDesk.SameCard card (card.upsert child) := by
  refine ⟨rfl, upsert_plain child hkind, fun job h => ?_⟩
  rcases upsert_names h with h | h
  · exact h
  · rw [hjob] at h
    cases h

theorem finish_oldest_same (hkind : card.kind = .batchDownload ∨ card.kind = .batchPush) :
    ControlDesk.SameCard card (card.finishOldest state) := by
  unfold finishOldest
  split
  · exact ⟨recheck_kind, recheck_plain, fun job h => recheck_names ▸ h⟩
  · next child hfind =>
    have hjob : child.job = none := by
      have := List.find?_some hfind
      simp only [decide_eq_true_eq] at this
      exact this.2
    have hsame := upsert_same { child with state } hjob hkind
    exact ⟨recheck_kind.trans hsame.kind, fun h => recheck_plain (hsame.plain h), fun job h =>
      hsame.names job (recheck_names ▸ h)⟩

theorem finish_smalls_same {smalls : Nat}
    (hkind : card.kind = .batchDownload ∨ card.kind = .batchPush) :
    ControlDesk.SameCard card (ControlDesk.finishSmalls smalls card) := by
  induction smalls generalizing card with
  | zero => exact finish_oldest_same hkind
  | succ smalls ih =>
    have hfirst : ControlDesk.SameCard card (card.finishOldest .done) := finish_oldest_same hkind
    have hrest : ControlDesk.SameCard (card.finishOldest .done)
        (ControlDesk.finishSmalls smalls (card.finishOldest .done)) :=
      ih (hfirst.kind.symm ▸ hkind)
    exact ⟨hrest.kind.trans hfirst.kind, fun h => hrest.plain (hfirst.plain h), fun job h =>
      hfirst.names job (hrest.names job h)⟩

theorem finish_child_kind : (card.finishChild job state).kind = card.kind := recheck_kind

theorem finish_child_names {id : Nat} (h : id ∈ (card.finishChild job state).names) :
    id ∈ card.names ∨ job = id := by
  unfold finishChild at h
  dsimp only at h
  rw [recheck_names] at h
  rcases upsert_names h with h | h
  · exact .inl h
  · exact .inr (Option.some.inj h)

theorem finish_child_plain (hkind : card.kind = .batchDownload ∨ card.kind = .batchPush)
    (h : card.Plain) : (card.finishChild job state).Plain :=
  recheck_plain (upsert_plain _ hkind h)

end ControlCard

namespace ControlDesk

section Kinds

variable {s : ControlDesk} {c h k : Nat} {f : ControlCard → ControlCard}
  {g : EngineTask → EngineTask} {kind : CardKind}

theorem kind_update_card (hf : ∀ card, (f card).kind = card.kind) :
    (s.updateCard c f).kindOf k = s.kindOf k := by
  show ((s.updateCard c f).cards[k]?).map ControlCard.kind = (s.cards[k]?).map ControlCard.kind
  rw [card_update_card, Option.map_map]
  refine congrArg (fun F => Option.map F s.cards[k]?) (funext fun card => ?_)
  show (if c = k then f card else card).kind = card.kind
  split
  · exact hf card
  · rfl

theorem kind_of_card {card : ControlCard} (h : s.cards[c]? = some card) :
    s.kindOf c = some card.kind := by
  show (s.cards[c]?).map ControlCard.kind = _
  rw [h]
  rfl

theorem card_of_kind (h : s.kindOf c = some kind) :
    ∃ card, s.cards[c]? = some card ∧ card.kind = kind :=
  Option.map_eq_some_iff.mp h

end Kinds

section Wiring

variable {s : ControlDesk} {c h job : Nat} {task : EngineTask} {name : String} {ok : Bool}

theorem Wired.set_flags (hs : s.Wired) (flags : Nat → ControlFlags) :
    Wired { s with flags } :=
  { hs with }

theorem Wired.apply_card (hs : s.Wired) (ev : CardEvent) :
    (s.updateCard c fun card => card.apply ev).Wired :=
  hs.update_same_card fun _ _ => ControlCard.apply_same

theorem Wired.set_bound (hs : s.Wired) (hbacked : s.Backed job c) :
    Wired { s with engineToCard := Function.update s.engineToCard job (some c) } := by
  refine { hs with bound := ?_ }
  intro id d hd
  by_cases heq : id = job
  · subst heq
    have hd : some c = some d := by simpa using hd
    exact Option.some.inj hd ▸ hbacked
  · exact hs.bound id d (by simpa [Function.update_of_ne heq] using hd)

theorem Wired.set_parent (hs : s.Wired) (hbacked : s.Backed job c)
    (hkind : s.kindOf c = some .batchPush) :
    Wired { s with pendingChildren := Function.update s.pendingChildren job (some c) } := by
  refine { hs with parent := ?_ }
  intro id d hd
  by_cases heq : id = job
  · subst heq
    have hd : some c = some d := by simpa using hd
    exact Option.some.inj hd ▸ ⟨hbacked, hkind⟩
  · exact hs.parent id d (by simpa [Function.update_of_ne heq] using hd)

theorem Wired.bind_first (hs : s.Wired) (hbacked : s.Backed job c)
    (hkind : s.kindOf c = some .download ∨ s.kindOf c = some .push ∨ s.kindOf c = some .served) :
    (s.bindFirst job c).Wired := by
  unfold bindFirst
  split
  · refine Wired.set_bound (hs.update_card fun card hcard => ⟨rfl, ?_, ?_⟩) hbacked
    · have hplain := hs.plain c card hcard
      refine ⟨fun hone => ?_, hplain.noFlag, hplain.childless⟩
      rw [kind_of_card hcard] at hkind
      rcases hkind with hkind | hkind | hkind <;> rcases hone with hone | hone | hone <;>
        · have hone : card.kind = _ := hone
          rw [hone] at hkind
          cases hkind
    · intro id hid
      by_cases heq : id = job
      · exact heq ▸ hbacked
      · refine hs.named c card hcard id ?_
        unfold ControlCard.names at hid ⊢
        simp only [List.mem_append, Option.toList_some, List.mem_singleton] at hid ⊢
        rcases hid with (hid | hid) | hid
        · exact absurd hid heq
        · exact .inl (.inr hid)
        · exact .inr hid
  · exact hs

/-- A task that is told to have started. -/
theorem started_same (hkind : task.kind ≠ .source) :
    SameTask task { task with started := true } :=
  ⟨rfl, rfl, rfl, rfl, rfl, rfl, fun _ => rfl, fun hsource => absurd hsource hkind⟩

theorem Wired.handle_started (hs : s.Wired) (htask : s.tasks[h]? = some task)
    (hkind : task.kind ≠ .source) : (s.handleStarted h task name).Wired := by
  have hnext : (s.updateTask h fun task => { task with started := true }).Wired := by
    refine hs.update_task fun found hfound => started_same ?_
    rw [Option.some.inj (hfound.symm.trans htask)]
    exact hkind
  unfold handleStarted
  cases hcard : task.card with
  | none => exact hnext
  | some c =>
    dsimp only
    have hbacked : (s.updateTask h fun task => { task with started := true }).Backed task.job c :=
      ⟨h, { task with started := true }, by
        rw [task_update_task, htask, Option.map_some, if_pos rfl], rfl, hcard, rfl⟩
    split
    · next hone => exact (hnext.bind_first hbacked (.inl hone)).apply_card _
    · next hone => exact (hnext.bind_first hbacked (.inr (.inl hone))).apply_card _
    · next hone =>
      refine hnext.update_same_card fun card hfound => ?_
      have hbatch : card.kind = .batchDownload :=
        Option.some.inj ((kind_of_card hfound).symm.trans hone)
      have hkind : (card.apply .started).kind = .batchDownload := hbatch
      have hsame := ControlCard.upsert_same { name, job := none, state := .active } rfl (.inl hkind)
      exact ⟨hsame.kind, fun hplain => hsame.plain (ControlCard.apply_same.plain hplain),
        hsame.names⟩
    · next hone =>
      refine hnext.update_same_card fun card hfound => ?_
      have hbatch : card.kind = .batchPush :=
        Option.some.inj ((kind_of_card hfound).symm.trans hone)
      have hkind : (card.apply .started).kind = .batchPush := hbatch
      have hsame := ControlCard.upsert_same { name, job := none, state := .active } rfl (.inr hkind)
      exact ⟨hsame.kind, fun hplain => hsame.plain (ControlCard.apply_same.plain hplain),
        hsame.names⟩
    · exact hnext.apply_card _

/-- A task that ends. -/
theorem SameTask.stop (hsame : SameTask task task) : SameTask task task.stop :=
  ⟨rfl, rfl, rfl, rfl, rfl, rfl, id, fun hsource => ⟨rfl, fun hnew =>
    ⟨rfl, ((hsame.source hsource).2 hnew).2⟩⟩⟩

/-- A job that is served has started. -/
theorem Wired.started_of_live (hs : s.Wired) (htask : s.tasks[h]? = some task)
    (hkind : task.kind = .source) (hlive : task.live = true ∨ 0 < task.deferred) :
    task.started = true := by
  cases hstarted : task.started with
  | true => rfl
  | false =>
    obtain ⟨hdead, hnone⟩ := ((hs.same_task htask).source hkind).2 hstarted
    rcases hlive with hlive | hlive
    · simp [hdead] at hlive
    · omega

theorem Wired.end_task (hs : s.Wired) : (s.updateTask h EngineTask.stop).Wired :=
  hs.update_task fun _ hfound => (hs.same_task hfound).stop

theorem Wired.source_ended (hs : s.Wired) : (s.sourceEnded h task ok).Wired := by
  have hnext := hs.end_task (h := h)
  unfold sourceEnded
  dsimp only
  cases hparent : (s.updateTask h EngineTask.stop).pendingChildren
      task.job with
  | some parent =>
    obtain ⟨hbacked, hbatch⟩ := hnext.parent task.job parent hparent
    refine hnext.update_card fun card hcard => ⟨ControlCard.finish_child_kind, ?_, ?_⟩
    · have hkind : card.kind = .batchPush :=
        Option.some.inj ((kind_of_card hcard).symm.trans hbatch)
      exact ControlCard.finish_child_plain (.inr hkind) (hnext.plain parent card hcard)
    · intro id hid
      rcases ControlCard.finish_child_names hid with hid | rfl
      · exact hnext.named parent card hcard id hid
      · exact hbacked
  | none =>
    dsimp only
    cases (s.updateTask h EngineTask.stop).engineToCard task.job with
    | some c => exact hnext.apply_card _
    | none => exact hnext

theorem Wired.cleanup_one (hs : s.Wired) (push : Nat) : (cleanupOne push s h).Wired := by
  unfold cleanupOne
  cases htask : s.tasks[h]? with
  | none => exact hs
  | some task =>
    dsimp only
    split
    · exact hs.source_ended
    · exact hs

theorem Wired.cleanup (hs : s.Wired) (push : Nat) : (s.cleanupPushSenders push).Wired := by
  unfold cleanupPushSenders
  generalize List.range s.tasks.length = places
  induction places generalizing s with
  | nil => exact hs
  | cons place places ih => exact ih (hs.cleanup_one push)

theorem Wired.clear_flag (hs : s.Wired) :
    (s.updateCard c ControlCard.clearFlag).Wired :=
  hs.update_same_card fun _ _ =>
    ⟨rfl, fun h => ⟨h.unbound, fun _ => rfl, h.childless⟩, fun _ h => h⟩

theorem Wired.push_failed (hs : s.Wired) : (s.pushFailed h task c).Wired := by
  have hnext := ((hs.end_task (h := h)).cleanup h).clear_flag (c := c)
  unfold pushFailed
  dsimp only
  split
  · exact hnext
  · exact hnext.apply_card _

theorem Wired.push_done (hs : s.Wired) : (s.pushDone h task c).Wired := by
  have hnext := (hs.end_task (h := h)).clear_flag (c := c)
  unfold pushDone
  dsimp only
  split
  · next hbatch =>
    refine hnext.update_same_card fun card hcard => ControlCard.finish_smalls_same (.inr ?_)
    exact Option.some.inj ((kind_of_card hcard).symm.trans hbatch)
  · exact hnext.apply_card _

theorem Wired.pull_failed (hs : s.Wired) (card : Option Nat) : (s.pullFailed card name).Wired := by
  unfold pullFailed
  split
  · exact hs
  · split
    · exact hs.apply_card _
    · next hbatch =>
      refine hs.update_same_card fun card hcard => ControlCard.upsert_same _ rfl (.inl ?_)
      exact Option.some.inj ((kind_of_card hcard).symm.trans hbatch)
    · exact hs

theorem Wired.pull_ended (hs : s.Wired) (card : Option Nat) :
    (s.pullEnded card name ok).Wired := by
  unfold pullEnded
  split
  · exact hs
  · split
    · split
      · exact hs.apply_card _
      · exact hs
    · next hbatch =>
      refine hs.update_same_card fun card hcard => ControlCard.upsert_same _ rfl (.inl ?_)
      exact Option.some.inj ((kind_of_card hcard).symm.trans hbatch)
    · exact hs

/-- The card of a task is there. -/
theorem Wired.card_of_task (hs : s.Wired) (htask : s.tasks[h]? = some task)
    (hcard : task.card = some c) : ∃ card, s.cards[c]? = some card := by
  have hpush : ∀ (k : Nat) (owner : EngineTask), s.tasks[k]? = some owner → owner.kind = .push →
      owner.card = some c → ∃ card, s.cards[c]? = some card := by
    intro k owner howner hkind hc
    have hshape := hs.shape k owner howner
    unfold Shape at hshape
    rw [hkind] at hshape
    obtain ⟨-, d, card, hd, hfound, -⟩ := hshape
    exact ⟨card, Option.some.inj (hc.symm.trans hd) ▸ hfound⟩
  have hshape := hs.shape h task htask
  unfold Shape at hshape
  cases hkind : task.kind with
  | pull =>
    rw [hkind] at hshape
    obtain ⟨-, d, card, hd, hfound, -⟩ := hshape
    exact ⟨card, Option.some.inj (hcard.symm.trans hd) ▸ hfound⟩
  | push => exact hpush h task htask hkind hcard
  | source =>
    rw [hkind] at hshape
    cases hoffer : task.offer with
    | none =>
      rw [hoffer] at hshape
      rcases hshape with ⟨-, -, -, hnone, -⟩ | ⟨-, -, d, card, hd, hfound, -⟩
      · rw [hnone] at hcard
        cases hcard
      · exact ⟨card, Option.some.inj (hcard.symm.trans hd) ▸ hfound⟩
    | some push =>
      rw [hoffer] at hshape
      obtain ⟨owner, howner, hownerKind, -, hsame, -⟩ := hshape
      exact hpush push owner howner hownerKind (hsame ▸ hcard)

/-- A card that is added. No task works for it yet. -/
theorem Wired.add_card {card : ControlCard} (hs : s.Wired) (hplace : s.NewPlace)
    (hplain : card.Plain) (hnames : card.names = []) :
    Wired { s with cards := s.cards ++ [card] } := by
  refine ⟨hs.apart, ?_, hs.bound, ?_, ?_, hs.channel, ?_, ?_, ?_⟩
  · intro task htask k hk
    rcases Nat.lt_or_ge k s.cards.length with hlt | hge
    · exact hs.offCards task htask k hlt
    · have hlast : k < s.cards.length + 1 := by simpa using hk
      obtain rfl : k = s.cards.length := by omega
      exact hplace task htask
  · intro job c hc
    obtain ⟨hbacked, hkind⟩ := hs.parent job c hc
    obtain ⟨found, hfound, hkind⟩ := card_of_kind hkind
    refine ⟨hbacked, ?_⟩
    show ((s.cards ++ [card])[c]?).map ControlCard.kind = _
    rw [concat_old hfound, Option.map_some, hkind]
  · intro k found hfound job hjob
    rcases concat_cases hfound with hold | ⟨rfl, rfl⟩
    · exact hs.named k found hold job hjob
    · rw [hnames] at hjob
      cases hjob
  · intro k task htask
    have hshape := hs.shape k task htask
    unfold Shape at hshape ⊢
    split
    · next hpull =>
      rw [hpull] at hshape
      obtain ⟨hgate, d, found, hd, hfound, hone⟩ := hshape
      exact ⟨hgate, d, found, hd, concat_old hfound, hone⟩
    · next hpush =>
      rw [hpush] at hshape
      obtain ⟨hgate, d, found, hd, hfound, hone⟩ := hshape
      exact ⟨hgate, d, found, hd, concat_old hfound, hone⟩
    · next hsource hoffer =>
      rw [hsource, hoffer] at hshape
      rcases hshape with hnew | ⟨hstarted, hgate, d, found, hd, hfound, hone⟩
      · exact .inl hnew
      · exact .inr ⟨hstarted, hgate, d, found, hd, concat_old hfound, hone⟩
    · next hsource hoffer =>
      rw [hsource, hoffer] at hshape
      exact hshape
  · intro k found hfound
    rcases concat_cases hfound with hold | ⟨rfl, rfl⟩
    · exact hs.plain k found hold
    · exact hplain
  · intro k l task other d found htask hother hd hd' hfound hone
    rcases concat_cases hfound with hold | ⟨rfl, rfl⟩
    · exact hs.single k l task other d found htask hother hd hd' hold hone
    · obtain ⟨found, hthere⟩ := hs.card_of_task htask hd
      rw [List.getElem?_eq_none (Nat.le_refl _)] at hthere
      cases hthere

/-- A task that is added, under an id that is not in use. -/
theorem Wired.add_task (hs : s.Wired) (task : EngineTask) (hunused : s.Unused task.job)
    (hshape : Shape { s with tasks := s.tasks ++ [task] } s.tasks.length task)
    (hsingle : ∀ (k : Nat) (other : EngineTask) (d : Nat) (card : ControlCard),
      s.tasks[k]? = some other → task.card = some d → other.card = some d →
        s.cards[d]? = some card → ¬ (card.kind = .download ∨ card.kind = .served ∨
          (task.kind = .push ∧ other.kind = .push))) :
    Wired { s with tasks := s.tasks ++ [task] } := by
  have hbacked : ∀ job c, s.Backed job c → Backed { s with tasks := s.tasks ++ [task] } job c := by
    rintro job c ⟨k, found, hfound, hrest⟩
    exact ⟨k, found, concat_old hfound, hrest⟩
  refine ⟨?_, ?_, fun job c hc => hbacked job c (hs.bound job c hc),
    fun job c hc => ⟨hbacked job c (hs.parent job c hc).1, (hs.parent job c hc).2⟩,
    fun c card hcard job hjob => hbacked job c (hs.named c card hcard job hjob), ?_, ?_, hs.plain,
    ?_⟩
  · intro k l first second hfirst hsecond hjob
    rcases concat_cases hfirst with hold | ⟨rfl, rfl⟩
    · rcases concat_cases hsecond with hold' | ⟨rfl, rfl⟩
      · exact hs.apart k l first second hold hold' hjob
      · exact absurd hjob (hunused.1 first (List.mem_of_getElem? hold))
    · rcases concat_cases hsecond with hold' | ⟨rfl, rfl⟩
      · exact absurd hjob.symm (hunused.1 second (List.mem_of_getElem? hold'))
      · rfl
  · intro found hfound k hk
    rcases List.mem_append.mp hfound with hold | hnew
    · exact hs.offCards found hold k hk
    · obtain rfl := List.mem_singleton.mp hnew
      exact hunused.2 k hk
  · intro job k hk
    obtain ⟨found, hfound, hrest⟩ := hs.channel job k hk
    exact ⟨found, concat_old hfound, hrest⟩
  · intro k found hfound
    rcases concat_cases hfound with hold | ⟨rfl, rfl⟩
    · have hkept := hs.shape k found hold
      unfold Shape at hkept ⊢
      split
      · next hpull =>
        rw [hpull] at hkept
        exact hkept
      · next hpush =>
        rw [hpush] at hkept
        exact hkept
      · next hsource hoffer =>
        rw [hsource, hoffer] at hkept
        exact hkept
      · next push hsource hoffer =>
        rw [hsource, hoffer] at hkept
        obtain ⟨owner, howner, hrest⟩ := hkept
        exact ⟨owner, concat_old howner, hrest⟩
    · exact hshape
  · intro k l first second d card hfirst hsecond hd hd' hcard hone
    rcases concat_cases hfirst with hold | ⟨rfl, rfl⟩
    · rcases concat_cases hsecond with hold' | ⟨rfl, rfl⟩
      · exact hs.single k l first second d card hold hold' hd hd' hcard hone
      · refine absurd ?_ (hsingle k first d card hold hd' hd hcard)
        rcases hone with hone | hone | ⟨hone, htwo⟩
        · exact .inl hone
        · exact .inr (.inl hone)
        · exact .inr (.inr ⟨htwo, hone⟩)
    · rcases concat_cases hsecond with hold' | ⟨rfl, rfl⟩
      · exact absurd hone (hsingle l second d card hold' hd hd' hcard)
      · rfl

/-- A file that is served from now on, for the card it is asked for or one that no task works for. -/
theorem Wired.start_task {g : EngineTask → EngineTask} (hs : s.Wired)
    (htask : s.tasks[h]? = some task) (hkind : task.kind = .source) (hnew : task.started = false)
    (hgkind : (g task).kind = .source) (hgjob : (g task).job = task.job)
    (hgcard : ∀ d, (g task).card = some d → task.card = some d ∨ s.Idle d)
    (hshape : (s.updateTask h g).Shape h (g task)) : (s.updateTask h g).Wired := by
  have htasks : ∀ k found, s.tasks[k]? = some found → k ≠ h →
      (s.updateTask h g).tasks[k]? = some found := by
    intro k found hfound hne
    rw [task_update_task, hfound, Option.map_some, if_neg (Ne.symm hne)]
  have hback : ∀ k found, (s.updateTask h g).tasks[k]? = some found →
      (k = h ∧ found = g task) ∨ (k ≠ h ∧ s.tasks[k]? = some found) := by
    intro k found hfound
    obtain ⟨before, hbefore, rfl⟩ := task_of_update_task hfound
    by_cases heq : h = k
    · subst heq
      obtain rfl := Option.some.inj (hbefore.symm.trans htask)
      exact .inl ⟨rfl, if_pos rfl⟩
    · rw [if_neg heq]
      exact .inr ⟨Ne.symm heq, hbefore⟩
  -- what names an id was started before, and is another task
  have hbacked : ∀ job c, s.Backed job c → (s.updateTask h g).Backed job c := by
    rintro job c ⟨k, found, hfound, hjob, hcard, hstarted⟩
    refine ⟨k, found, htasks k found hfound ?_, hjob, hcard, hstarted⟩
    rintro rfl
    obtain rfl := Option.some.inj (hfound.symm.trans htask)
    simp [hnew] at hstarted
  have howner : ∀ push owner, s.tasks[push]? = some owner → owner.kind = .push → push ≠ h := by
    rintro push owner hfound hpush rfl
    obtain rfl := Option.some.inj (hfound.symm.trans htask)
    rw [hkind] at hpush
    cases hpush
  refine ⟨?_, ?_, fun job c hc => hbacked job c (hs.bound job c hc),
    fun job c hc => ⟨hbacked job c (hs.parent job c hc).1, (hs.parent job c hc).2⟩,
    fun c card hcard job hjob => hbacked job c (hs.named c card hcard job hjob), ?_, ?_, hs.plain,
    ?_⟩
  · intro k l first second hfirst hsecond hjob
    rcases hback k first hfirst with ⟨rfl, rfl⟩ | ⟨hk, hold⟩
    · rcases hback l second hsecond with ⟨rfl, rfl⟩ | ⟨hl, hold'⟩
      · rfl
      · exact hs.apart k l task second htask hold' (hgjob.symm.trans hjob)
    · rcases hback l second hsecond with ⟨rfl, rfl⟩ | ⟨hl, hold'⟩
      · exact hs.apart k l first task hold htask (hjob.trans hgjob)
      · exact hs.apart k l first second hold hold' hjob
  · intro found hfound k hk
    obtain ⟨place, hplace⟩ := List.mem_iff_getElem?.mp hfound
    rcases hback place found hplace with ⟨rfl, rfl⟩ | ⟨-, hold⟩
    · rw [hgjob]
      exact hs.offCards task (List.mem_of_getElem? htask) k hk
    · exact hs.offCards found (List.mem_of_getElem? hold) k hk
  · intro job k hk
    obtain ⟨found, hfound, hjob, hpull⟩ := hs.channel job k hk
    refine ⟨found, htasks k found hfound ?_, hjob, hpull⟩
    rintro rfl
    obtain rfl := Option.some.inj (hfound.symm.trans htask)
    rw [hkind] at hpull
    cases hpull
  · intro k found hfound
    rcases hback k found hfound with ⟨rfl, rfl⟩ | ⟨hne, hold⟩
    · exact hshape
    · have hkept := hs.shape k found hold
      unfold Shape at hkept ⊢
      split
      · next hpull =>
        rw [hpull] at hkept
        exact hkept
      · next hpush =>
        rw [hpush] at hkept
        exact hkept
      · next hsource hoffer =>
        rw [hsource, hoffer] at hkept
        exact hkept
      · next push hsource hoffer =>
        rw [hsource, hoffer] at hkept
        obtain ⟨owner, hthere, hpush, hrest⟩ := hkept
        exact ⟨owner, htasks push owner hthere (howner push owner hthere hpush), hpush, hrest⟩
  · intro k l first second d card hfirst hsecond hd hd' hcard hone
    rcases hback k first hfirst with ⟨rfl, rfl⟩ | ⟨hk, hold⟩
    · rcases hback l second hsecond with ⟨rfl, rfl⟩ | ⟨hl, hold'⟩
      · rfl
      · rcases hgcard d hd with hsame | hidle
        · refine hs.single k l task second d card htask hold' hsame hd' hcard ?_
          rcases hone with hone | hone | ⟨hone, -⟩
          · exact .inl hone
          · exact .inr (.inl hone)
          · rw [hgkind] at hone
            cases hone
        · exact absurd hd' (hidle second (List.mem_of_getElem? hold'))
    · rcases hback l second hsecond with ⟨rfl, rfl⟩ | ⟨hl, hold'⟩
      · rcases hgcard d hd' with hsame | hidle
        · refine hs.single k l first task d card hold htask hd hsame hcard ?_
          rcases hone with hone | hone | ⟨-, hone⟩
          · exact .inl hone
          · exact .inr (.inl hone)
          · rw [hgkind] at hone
            cases hone
        · exact absurd hd (hidle first (List.mem_of_getElem? hold))
      · exact hs.single k l first second d card hold hold' hd hd' hcard hone

/-- The job of a file that is not served yet is in no table. -/
theorem Wired.new_job (hs : s.Wired) (htask : s.tasks[h]? = some task)
    (hnew : task.started = false) : ¬ s.Backed task.job c := by
  rintro ⟨k, found, hfound, hjob, -, hstarted⟩
  obtain rfl := hs.apart k h found task hfound htask hjob
  obtain rfl := Option.some.inj (hfound.symm.trans htask)
  simp [hnew] at hstarted

/-- Nobody works for the next card. -/
theorem Wired.idle_next (hs : s.Wired) : s.Idle s.cards.length := by
  intro found hfound hcard
  obtain ⟨k, hk⟩ := List.mem_iff_getElem?.mp hfound
  obtain ⟨card, hthere⟩ := hs.card_of_task hk hcard
  rw [List.getElem?_eq_none (Nat.le_refl _)] at hthere
  cases hthere

theorem update_task_twice {g g' : EngineTask → EngineTask} :
    (s.updateTask h g).updateTask h g' = s.updateTask h (g' ∘ g) := by
  show { s with tasks := (s.tasks.modify h g).modify h g' } = { s with tasks := _ }
  rw [List.modify_modify_eq]

/-- A new card names nothing. -/
theorem new_card_plain (kind : CardKind) (peer : Nat) :
    (ControlCard.new kind peer).Plain ∧ (ControlCard.new kind peer).names = [] := by
  refine ⟨⟨fun _ => rfl, fun hone => ?_, fun _ _ => rfl⟩, rfl⟩
  have hkind : (ControlCard.new kind peer).kind = kind := rfl
  rw [hkind] at hone
  rcases hone with rfl | rfl | rfl
  · rfl
  · rfl
  · rfl

/-- A file of no push that is served from now on has a card of its own. -/
theorem Wired.serve_own (hs : s.Wired) (hplace : s.NewPlace) (htask : s.tasks[h]? = some task)
    (hkind : task.kind = .source) (hnew : task.started = false) (hoffer : task.offer = none) :
    ((s.updateTask h (EngineTask.serve h)).handleServed h task name).Wired := by
  have hunbound : (s.updateTask h (EngineTask.serve h)).engineToCard task.job = none := by
    cases hfound : s.engineToCard task.job with
    | none => exact hfound
    | some c => exact absurd (hs.bound task.job c hfound) (hs.new_job htask hnew)
  have hplain := new_card_plain .served 0
  have hadded := hs.add_card hplace hplain.1 hplain.2
  have hstarted := hadded.start_task
    (g := EngineTask.assign s.cards.length ∘ EngineTask.serve h)
    htask hkind hnew hkind rfl ?_ ?_
  · unfold handleServed
    rw [hoffer]
    dsimp only
    rw [hunbound]
    dsimp only
    rw [update_task_twice]
    refine Wired.apply_card (Wired.bind_first hstarted
      ⟨h, (EngineTask.assign s.cards.length ∘ EngineTask.serve h) task, ?_, rfl, rfl, rfl⟩
      (.inr (.inr ?_))) _
    · rw [task_update_task]
      show (s.tasks[h]?).map _ = _
      rw [htask, Option.map_some, if_pos rfl]
    · show ((s.cards ++ [ControlCard.new .served 0])[s.cards.length]?).map ControlCard.kind = _
      rw [List.getElem?_concat_length]
      rfl
  · intro d hd
    obtain rfl := Option.some.inj hd
    exact .inr hs.idle_next
  · have hgkind : ((EngineTask.assign s.cards.length ∘ EngineTask.serve h) task).kind = .source := hkind
    have hgoffer : ((EngineTask.assign s.cards.length ∘ EngineTask.serve h) task).offer = none := hoffer
    unfold Shape
    rw [hgkind, hgoffer]
    refine .inr ⟨rfl, rfl, s.cards.length, ControlCard.new .served 0, rfl, ?_, rfl⟩
    exact List.getElem?_concat_length

/-- A file of a push that is served from now on looks at the flags of the push, and its card names
its job. -/
theorem Wired.serve_push {push : Nat} {owner : EngineTask} {card : ControlCard} (hs : s.Wired)
    (htask : s.tasks[h]? = some task) (hkind : task.kind = .source)
    (hnew : task.started = false) (hoffer : task.offer = some push)
    (howner : s.tasks[push]? = some owner) (hcard : task.card = some c)
    (hfound : s.cards[c]? = some card)
    (hattach : s.attachTo card.peer = some (c, decide (card.kind = .batchPush))) :
    ((s.updateTask h (EngineTask.serve push)).handleServed h task name).Wired := by
  have hshape := hs.shape h task htask
  unfold Shape at hshape
  rw [hkind, hoffer] at hshape
  obtain ⟨owner', howner', hpush, hlarge, hsame, -⟩ := hshape
  obtain rfl := Option.some.inj (howner.symm.trans howner')
  have hne : push ≠ h := by
    rintro rfl
    obtain rfl := Option.some.inj (howner.symm.trans htask)
    rw [hkind] at hpush
    cases hpush
  have hstarted : (s.updateTask h (EngineTask.serve push)).Wired := by
    refine hs.start_task htask hkind hnew hkind rfl (fun d hd => .inl hd) ?_
    have hgkind : (task.serve push).kind = .source := hkind
    have hgoffer : (task.serve push).offer = some push := hoffer
    unfold Shape
    rw [hgkind, hgoffer]
    refine ⟨owner, ?_, hpush, hlarge, hsame, .inr ⟨rfl, rfl⟩⟩
    rw [task_update_task, howner, Option.map_some, if_neg (Ne.symm hne)]
  have hbacked : (s.updateTask h (EngineTask.serve push)).Backed task.job c :=
    ⟨h, task.serve push, by rw [task_update_task, htask, Option.map_some, if_pos rfl], rfl, hcard,
      rfl⟩
  have hthere : (s.updateTask h (EngineTask.serve push)).cards[c]? = some card := hfound
  unfold handleServed
  rw [hoffer, hcard]
  dsimp only
  rw [Option.bind_some, hthere, Option.map_some, Option.getD_some]
  have hattach' : (s.updateTask h (EngineTask.serve push)).attachTo card.peer =
      some (c, decide (card.kind = .batchPush)) := hattach
  rw [hattach']
  generalize s.updateTask h (EngineTask.serve push) = next at hstarted hbacked hthere
  by_cases hbatch : card.kind = .batchPush
  · rw [decide_eq_true hbatch]
    dsimp only
    have hkindOf : next.kindOf c = some .batchPush :=
      (kind_of_card hthere).trans (congrArg some hbatch)
    refine Wired.set_parent (hstarted.update_card fun found hcard => ⟨rfl, ?_, ?_⟩) hbacked ?_
    · obtain rfl := Option.some.inj (hcard.symm.trans hthere)
      have hplain := ControlCard.upsert_plain
        { name, job := some task.job, state := .active } (.inr hbatch)
        (hstarted.plain c found hthere)
      exact ⟨hplain.unbound, hplain.noFlag, hplain.childless⟩
    · intro id hid
      rcases ControlCard.attach_names hid with hid | rfl
      · exact hstarted.named c found hcard id hid
      · exact hbacked
    · exact (kind_update_card (f := ControlCard.attach name task.job) fun _ => rfl).trans hkindOf
  · rw [decide_eq_false hbatch]
    dsimp only
    split
    · exact Wired.set_bound (hstarted.apply_card .started) hbacked
    · exact hstarted

/-- A task that is no file that waits to be served keeps to what it is tied to. -/
theorem Wired.update_started {g : EngineTask → EngineTask} (hs : s.Wired)
    (htask : s.tasks[h]? = some task) (hstarted : task.kind = .source → task.started = true)
    (hkind : (g task).kind = task.kind) (hjob : (g task).job = task.job)
    (hcard : (g task).card = task.card) (hgate : (g task).gate = task.gate)
    (hlarge : (g task).large = task.large) (hoffer : (g task).offer = task.offer)
    (hkeep : (g task).started = task.started) : (s.updateTask h g).Wired := by
  refine hs.update_task fun found hfound => ?_
  obtain rfl := Option.some.inj (hfound.symm.trans htask)
  exact ⟨hkind, hjob, hcard, hgate, hlarge, hoffer, fun h => hkeep.trans h, fun hsource =>
    ⟨hkeep, fun hnew => by simp [hstarted hsource] at hnew⟩⟩

theorem not_source_of_pull (hkind : task.kind = .pull) : task.kind = .source → task.started = true :=
  fun h => by rw [hkind] at h; cases h

theorem not_source_of_push (hkind : task.kind = .push) : task.kind = .source → task.started = true :=
  fun h => by rw [hkind] at h; cases h

theorem Wired.route {card : ControlCard} {action : TaskControl} {next : ControlDesk}
    {emitted : List ControlEvent} (hs : s.Wired)
    (h : s.route c card action = some (next, emitted)) : next.Wired := by
  unfold ControlDesk.route at h
  dsimp only at h
  split at h
  · obtain ⟨rfl, -⟩ := answer_inj h
    exact (hs.set_flags _).apply_card _
  · obtain ⟨-, h⟩ := of_unless h
    split at h
    · obtain ⟨rfl, -⟩ := answer_inj h
      exact (hs.set_flags _).apply_card _
    · split at h
      · cases h
      · next place hchannel =>
        split at h
        · cases h
        · next task htask =>
          obtain ⟨-, rfl, -⟩ := when_answer h
          obtain ⟨found, hfound, -, hpull⟩ := hs.channel _ _ hchannel
          obtain rfl := Option.some.inj (hfound.symm.trans htask)
          exact (hs.update_started htask (not_source_of_pull hpull) rfl rfl rfl rfl rfl rfl
            rfl).apply_card _

theorem Wired.transfer_action {card : ControlCard} {action : TaskControl} {next : ControlDesk}
    {emitted : List ControlEvent} (hs : s.Wired) (hcard : s.cards[c]? = some card)
    (h : s.transferAction c card action = some (next, emitted)) : next.Wired := by
  unfold transferAction at h
  split at h
  · exact hs.route h
  · next flag hflag =>
    split at h
    · obtain ⟨rfl, -⟩ := answer_inj h
      refine hs.update_same_card fun found hfound => ⟨rfl, fun hplain => ?_, fun _ hid => hid⟩
      obtain rfl := Option.some.inj (hfound.symm.trans hcard)
      refine ⟨hplain.unbound, fun hone => ?_, hplain.childless⟩
      rw [hplain.noFlag hone] at hflag
      cases hflag
    · obtain ⟨-, h⟩ := of_unless h
      exact hs.route h

end Wiring

end ControlDesk

end LocalTrans.Desktop
