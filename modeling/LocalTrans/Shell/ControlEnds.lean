import LocalTrans.Shell.ControlRuns

/-!
# The end of a push

A push that ends takes the jobs with it that are served for it. `push_failed_lands` and
`push_done_lands` say that the card has ended then, where `Lands` or `DoneLands` holds before.
-/

namespace LocalTrans.Desktop

open Foundation

namespace ControlCard

variable {card : ControlCard} {reason : Option String} {child : ControlChild} {job : Nat}

theorem failed_ended : (card.apply (.failed reason)).Ended := by
  show nextState card.state (.failed reason) = _ ∨ nextState card.state (.failed reason) = _ ∨
    nextState card.state (.failed reason) = _
  cases card.state with
  | pending | active | paused | cancelling | failed => exact .inr (.inl rfl)
  | done => exact .inl rfl
  | interrupted => exact .inr (.inr rfl)

theorem finished_ended (h : card.state ≠ .pending) : (card.apply .finished).Ended := by
  show nextState card.state .finished = _ ∨ nextState card.state .finished = _ ∨
    nextState card.state .finished = _
  cases hstate : card.state with
  | pending => exact absurd hstate h
  | active | paused | cancelling | done => exact .inl rfl
  | failed => exact .inr (.inl rfl)
  | interrupted => exact .inr (.inr rfl)

/-- A card with children ends once none of them is active. -/
theorem recheck_ended (hchildren : card.children ≠ []) (hactive : card.activeChildren = []) :
    card.recheck.Ended := by
  by_cases hended : card.Ended
  · unfold recheck
    rw [if_pos (.inr (.inr hended))]
    exact hended
  · unfold recheck
    rw [if_neg (by simp [hchildren, hactive, hended])]
    split
    · exact failed_ended
    · split
      · next hpending =>
        refine finished_ended ?_
        show nextState card.state .started ≠ .pending
        rw [hpending]
        simp [nextState]
      · next hopen => exact finished_ended hopen

theorem recheck_children : card.recheck.children = card.children := by
  obtain ⟨state, heq⟩ := recheck_eq card
  rw [heq]

theorem recheck_active : card.recheck.activeChildren = card.activeChildren := by
  unfold activeChildren
  rw [recheck_children]

/-- The job that has failed is that of no active child. -/
theorem finish_child_active (hdistinct : ControlDesk.Distinct card.children)
    (h : child ∈ (card.finishChild job .failed).activeChildren) :
    child ∈ card.activeChildren ∧ child.job ≠ some job := by
  unfold finishChild at h
  dsimp only at h
  rw [recheck_active] at h
  generalize ((card.children.find? _).map _).getD "" = name at h
  obtain ⟨hmem, hactive⟩ := List.mem_filter.mp h
  have hactive : child.state = .active := by simpa using hactive
  have hfrom : ∀ found ∈ card.children, found = child → found ∈ card.activeChildren :=
    fun found hfound heq => List.mem_filter.mpr ⟨hfound, by simp [heq, hactive]⟩
  have hmem : child ∈ upsertChild card.children { name, job := some job, state := .failed } := hmem
  unfold upsertChild at hmem
  have hjob : ({ name, job := some job, state := .failed } : ControlChild).job = some job := rfl
  rcases ControlDesk.control_slot_job card.children hjob with
    ⟨i, found, hslot, hfound, hsame⟩ | hnone
  · rw [hslot] at hmem
    obtain ⟨k, hk⟩ := List.mem_iff_getElem?.mp hmem
    dsimp only at hk
    rw [List.getElem?_set] at hk
    split at hk
    · split at hk
      · obtain rfl := Option.some.inj hk
        cases hactive
      · cases hk
    · next hne =>
      refine ⟨hfrom child (List.mem_of_getElem? hk) rfl, fun hjob => hne ?_⟩
      exact hdistinct i k found child hfound hk (hsame.trans hjob.symm) (by simp [hsame])
  · have hold : child ∈ card.children := by
      rcases mem_upsert_child (show child ∈ upsertChild card.children _ from hmem) with rfl | hold
      · cases hactive
      · exact hold
    exact ⟨hfrom child hold rfl, hnone child hold⟩

theorem finish_child_children (card : ControlCard) (job : Nat) :
    (card.finishChild job .failed).children ≠ [] := by
  unfold finishChild
  dsimp only
  rw [recheck_children]
  show upsertChild card.children _ ≠ []
  unfold upsertChild
  split
  · next i hslot =>
    intro hnil
    have hnone : card.children = [] := by simpa using hnil
    rw [hnone] at hslot
    simp [controlSlot] at hslot
  · simp

end ControlCard

namespace ControlDesk

/-- What the `Done`s of a push of several small files meet: children with names of their own, and
active ones without a job. -/
structure SmallsOnly (bound : Nat) (card : ControlCard) : Prop where
  childed : card.children ≠ []
  names : (card.children.map ControlChild.name).Nodup
  jobless : ∀ child ∈ card.activeChildren, child.job = none
  count : card.activeChildren.length ≤ bound

/-- One `Done` ends the card or a child of it. -/
theorem SmallsOnly.finish_oldest {bound : Nat} {card : ControlCard} (h : SmallsOnly (bound + 1) card) :
    (card.finishOldest .done).Ended ∨
      (SmallsOnly bound (card.finishOldest .done) ∧
        (card.finishOldest .done).activeChildren ≠ []) := by
  unfold ControlCard.finishOldest
  cases hfind : card.children.find? fun child => child.state = .active ∧ child.job = none with
  | none =>
    refine .inl (ControlCard.recheck_ended h.childed ?_)
    refine List.eq_nil_iff_forall_not_mem.mpr fun child hmem => ?_
    have hnone := List.find?_eq_none.mp hfind child (List.mem_filter.mp hmem).1
    have hactive := (List.mem_filter.mp hmem).2
    simp [h.jobless child hmem] at hnone hactive
    exact hnone hactive
  | some child =>
    dsimp only
    obtain ⟨hmeets, before, after, hsplit, -⟩ := List.find?_eq_some_iff_append.mp hfind
    have hmeets : child.state = .active ∧ child.job = none := by simpa using hmeets
    have hnames := h.names
    have hcount := h.count
    have hjobless := h.jobless
    unfold ControlCard.activeChildren at hcount hjobless
    rw [hsplit] at hnames hcount hjobless
    -- the names tell the children apart, so the slot is that of the child
    have hupsert : (card.upsert { child with state := .done }).children =
        before ++ { child with state := .done } :: after := by
      have hbefore : ∀ other ∈ before, other.name ≠ child.name := by
        intro other hmem heq
        rw [List.map_append, List.nodup_append] at hnames
        exact hnames.2.2 other.name (List.mem_map_of_mem hmem) child.name (by simp) heq
      have hslot : controlSlot card.children { child with state := .done } =
          some before.length := by
        unfold controlSlot
        dsimp only
        rw [hmeets.2, hsplit]
        dsimp only
        rw [List.findIdx?_append, List.findIdx?_eq_none_iff.mpr (by simpa using hbefore)]
        simp [List.findIdx?_cons]
      show upsertChild card.children _ = _
      unfold upsertChild
      rw [hslot, hsplit]
      simp
    by_cases hquiet : (card.upsert { child with state := .done }).activeChildren = []
    · refine .inl (ControlCard.recheck_ended ?_ hquiet)
      rw [hupsert]
      simp
    · refine .inr ⟨⟨?_, ?_, ?_, ?_⟩, by rwa [ControlCard.recheck_active]⟩
      · rw [ControlCard.recheck_children, hupsert]
        simp
      · rw [ControlCard.recheck_children, hupsert]
        simpa using hnames
      · intro other hmem
        rw [ControlCard.recheck_active] at hmem
        unfold ControlCard.activeChildren at hmem
        rw [hupsert] at hmem
        refine hjobless other ?_
        simp only [List.filter_append, List.mem_append, List.filter_cons] at hmem ⊢
        rcases hmem with hmem | hmem
        · exact .inl hmem
        · refine .inr ?_
          simp only [reduceCtorEq, decide_false, Bool.false_eq_true, if_false] at hmem
          split
          · exact List.mem_cons_of_mem _ hmem
          · exact hmem
      · rw [ControlCard.recheck_active]
        unfold ControlCard.activeChildren
        rw [hupsert]
        simp only [List.filter_append, List.filter_cons, hmeets.1, List.length_append, decide_true,
          if_true, List.length_cons] at hcount
        simp only [List.filter_append, List.filter_cons, reduceCtorEq, decide_false,
          Bool.false_eq_true, if_false, List.length_append]
        omega

theorem finish_smalls_ended {smalls : Nat} {card : ControlCard}
    (h : card.Ended ∨ SmallsOnly (smalls + 1) card) : (finishSmalls smalls card).Ended := by
  have hstay : ∀ (smalls : Nat) (card : ControlCard), card.Ended → (finishSmalls smalls card).Ended :=
    fun smalls card hended => (calm_finish_smalls (P := True)).ended hended
  rcases h with hended | hsmalls
  · exact hstay smalls card hended
  · induction smalls generalizing card with
    | zero =>
      rcases hsmalls.finish_oldest with hended | ⟨hleft, hsome⟩
      · exact hended
      · exact absurd (List.length_eq_zero_iff.mp (Nat.le_zero.mp hleft.count)) hsome
    | succ smalls ih =>
      rcases hsmalls.finish_oldest with hended | ⟨hleft, -⟩
      · exact hstay smalls _ hended
      · exact ih hleft

/-- What the tables say beyond the ids: a channel is that of a task that listens, a job that is
served for a push is attached to its card, and the children of a card have different jobs. -/
structure Tied (s : ControlDesk) : Prop where
  wired : s.Wired
  heard : ∀ (job h : Nat) (task : EngineTask), s.taskControls job = some h →
    s.tasks[h]? = some task → task.listening = true
  attached : ∀ (h : Nat) (task : EngineTask) (c : Nat) (card : ControlCard),
    s.tasks[h]? = some task → task.kind = .source → task.live = true → task.offer ≠ none →
      task.card = some c → s.cards[c]? = some card →
        if card.kind = .batchPush then s.pendingChildren task.job = some c
        else s.engineToCard task.job = some c ∨ card.Ended
  distinct : ∀ (c : Nat) (card : ControlCard), s.cards[c]? = some card → Distinct card.children

theorem Tied.calm {except : Nat → Prop} {s next : ControlDesk} (hs : s.Tied)
    (hcalm : Calm except s next) (hwired : next.Wired) : next.Tied := by
  refine ⟨hwired, ?_, ?_, ?_⟩
  · intro job h task hchannel htask
    rcases hcalm.channels job h hchannel with hold | ⟨found, hfound, hlisten⟩
    · obtain ⟨before, hbefore, hkept⟩ := hcalm.task_back htask
      exact hkept.listening (hs.heard job h before hold hbefore)
    · obtain rfl := Option.some.inj (htask.symm.trans hfound)
      exact hlisten
  · intro h task c card htask hkind hlive hoffer hcard hfound
    obtain ⟨before, hbefore, hkept⟩ := hcalm.task_back htask
    obtain ⟨beforeCard, hbeforeCard, hkeptCard⟩ := hcalm.card_back hfound
    have hattached := hs.attached h before c beforeCard hbefore (hkept.kind ▸ hkind)
      (hkept.live hlive) (hkept.offer ▸ hoffer) (hkept.card ▸ hcard) hbeforeCard
    rw [hkept.job, hkeptCard.kind, hcalm.parents]
    split
    · next hbatch =>
      rw [if_pos hbatch] at hattached
      exact hattached
    · next hsingle =>
      rw [if_neg hsingle] at hattached
      rcases hattached with hbound | hended
      · rcases hcalm.bound before.job with hsame | ⟨k, other, hother, hjob, hnot⟩
        · exact .inl (hsame.trans hbound)
        · -- the ids of tasks are different
          obtain rfl := hs.wired.apart k h other before hother hbefore hjob
          obtain rfl := Option.some.inj (hother.symm.trans hbefore)
          exact absurd (hkept.kind.symm.trans hkind) hnot
      · exact .inr (hkeptCard.ended hended)
  · intro c card hcard
    obtain ⟨before, hbefore, hkept⟩ := hcalm.card_back hcard
    exact hkept.distinct (hs.distinct c before hbefore)

section Cleanup

variable {s : ControlDesk} {c h k push : Nat} {task : EngineTask} {card : ControlCard} {ok : Bool}

theorem source_ended_tasks :
    (s.sourceEnded h task ok).tasks = (s.updateTask h EngineTask.stop).tasks := by
  unfold sourceEnded
  dsimp only
  split
  · rfl
  · split
    · rfl
    · rfl

theorem cleanup_one_task : (cleanupOne push s h).tasks[k]? =
    (s.tasks[k]?).map fun task => if h = k ∧ ServedFor push task then task.stop else task := by
  unfold cleanupOne
  cases htask : s.tasks[h]? with
  | none =>
    dsimp only
    by_cases heq : h = k
    · rw [← heq, htask]
      rfl
    · simp [heq]
  | some found =>
    dsimp only
    split
    · next hmeets =>
      rw [source_ended_tasks, task_update_task]
      by_cases heq : h = k
      · subst heq
        rw [htask, Option.map_some, Option.map_some, if_pos rfl, if_pos ⟨rfl, hmeets⟩]
      · simp [heq]
    · next hmeets =>
      by_cases heq : h = k
      · subst heq
        rw [htask, Option.map_some, if_neg fun hboth => hmeets hboth.2]
      · simp [heq]

/-- The jobs that are served for the push end, and no other task changes. -/
theorem cleanup_task : (s.cleanupPushSenders push).tasks[k]? =
    (s.tasks[k]?).map fun task => if ServedFor push task then task.stop else task := by
  have hplaces : ∀ (places : List Nat) (s : ControlDesk),
      (places.foldl (cleanupOne push) s).tasks[k]? = (s.tasks[k]?).map fun task =>
        if k ∈ places ∧ ServedFor push task then task.stop else task := by
    intro places
    induction places with
    | nil => simp
    | cons place places ih =>
      intro s
      rw [List.foldl_cons, ih, cleanup_one_task, Option.map_map]
      refine congrArg (fun f => Option.map f s.tasks[k]?) (funext fun task => ?_)
      by_cases hserved : ServedFor push task
      · have hstopped : ¬ ServedFor push task.stop := fun hmeets => by cases hmeets.2.1
        by_cases heq : place = k
        · simp [heq, hserved, hstopped]
        · have hne : k ≠ place := fun h => heq h.symm
          simp [heq, hne, hserved]
      · simp [hserved]
  unfold cleanupPushSenders
  rw [hplaces]
  cases hthere : s.tasks[k]? with
  | none => rfl
  | some task =>
    have hk : k ∈ List.range s.tasks.length :=
      List.mem_range.mpr (List.getElem?_eq_some_iff.mp hthere).1
    simp [hk]

/-- Of the tasks, a push that fails ends, and so do the jobs that are served for it. -/
theorem push_failed_task : (s.pushFailed h task c).tasks[k]? =
    (s.tasks[k]?).map fun found => if h = k ∨ ServedFor h found then found.stop else found := by
  have htasks : (s.pushFailed h task c).tasks =
      ((s.updateTask h EngineTask.stop).cleanupPushSenders h).tasks := by
    unfold pushFailed
    dsimp only
    split
    · rfl
    · rfl
  rw [htasks, cleanup_task, task_update_task, Option.map_map]
  refine congrArg (fun f => Option.map f s.tasks[k]?) (funext fun found => ?_)
  by_cases heq : h = k
  · have hstopped : ¬ ServedFor h found.stop := fun hmeets => by cases hmeets.2.1
    simp [heq, heq ▸ hstopped]
  · simp [heq]

/-- A job that is served for a push is behind the card of the push. -/
theorem Wired.served_card {owner : EngineTask} (hs : s.Wired) (htask : s.tasks[h]? = some task)
    (howner : s.tasks[push]? = some owner) (hkind : task.kind = .source)
    (hoffer : task.offer = some push) : task.card = owner.card := by
  have hshape := hs.shape h task htask
  unfold Shape at hshape
  rw [hkind, hoffer] at hshape
  obtain ⟨found, hfound, -, -, hsame, -⟩ := hshape
  obtain rfl := Option.some.inj (howner.symm.trans hfound)
  exact hsame

/-- What a served job belongs to is a push. -/
theorem Wired.offer_push {owner : EngineTask} (hs : s.Wired) (htask : s.tasks[h]? = some task)
    (hkind : task.kind = .source) (hoffer : task.offer = some push)
    (howner : s.tasks[push]? = some owner) : owner.kind = .push ∧ owner.gate = push := by
  have hshape := hs.shape h task htask
  unfold Shape at hshape
  rw [hkind, hoffer] at hshape
  obtain ⟨found, hfound, hpush, -⟩ := hshape
  obtain rfl := Option.some.inj (howner.symm.trans hfound)
  have hown := hs.shape push owner howner
  unfold Shape at hown
  rw [hpush] at hown
  exact ⟨hpush, hown.1⟩

/-- A job that is served behind the card of a push belongs to a push with that card. -/
theorem Wired.push_of_source (hs : s.Wired) (htask : s.tasks[h]? = some task)
    (hkind : task.kind = .source) (hcard : task.card = some c) (hthere : s.cards[c]? = some card)
    (hpush : card.kind = .push ∨ card.kind = .batchPush) :
    ∃ push owner, task.offer = some push ∧ s.tasks[push]? = some owner ∧ owner.kind = .push ∧
      owner.card = some c := by
  have hallowed := hs.kind_of_task htask hcard hthere
  have hshape := hs.shape h task htask
  unfold Shape at hshape
  rw [hkind] at hallowed hshape
  cases hoffer : task.offer with
  | none =>
    rw [hoffer] at hallowed
    rcases hpush with hpush | hpush <;> simp [hpush] at hallowed
  | some push =>
    rw [hoffer] at hshape
    obtain ⟨owner, howner, hownerKind, -, hsame, -⟩ := hshape
    exact ⟨push, owner, rfl, howner, hownerKind, hsame ▸ hcard⟩

/-- The end of a job of a push of several files is that of a child of the card. -/
theorem source_ended_batch (hs : s.Tied) (htask : s.tasks[h]? = some task)
    (hkind : task.kind = .source) (hlive : task.live = true) (hoffer : task.offer ≠ none)
    (hcard : task.card = some c) (hfound : s.cards[c]? = some card)
    (hbatch : card.kind = .batchPush) :
    (s.sourceEnded h task false).cards[c]? = some (card.finishChild task.job .failed) := by
  have hattached := hs.attached h task c card htask hkind hlive hoffer hcard hfound
  rw [if_pos hbatch] at hattached
  unfold sourceEnded
  dsimp only
  rw [show (s.updateTask h EngineTask.stop).pendingChildren task.job = some c from hattached]
  dsimp only
  rw [card_update_card]
  show Option.map _ s.cards[c]? = _
  rw [hfound, Option.map_some, if_pos rfl]
  rfl

/-- The end of a job of a push of one file ends the card. -/
theorem source_ended_single (hs : s.Tied) (htask : s.tasks[h]? = some task)
    (hkind : task.kind = .source) (hlive : task.live = true) (hoffer : task.offer ≠ none)
    (hcard : task.card = some c) (hfound : s.cards[c]? = some card)
    (hsingle : card.kind ≠ .batchPush) :
    ∃ after, (s.sourceEnded h task false).cards[c]? = some after ∧ after.Ended := by
  have hcalm : Calm (fun _ => True) s (s.sourceEnded h task false) :=
    calm_source_ended htask (by simp [hkind])
  obtain ⟨after, hafter, hkept⟩ := hcalm.card_on hfound
  have hattached := hs.attached h task c card htask hkind hlive hoffer hcard hfound
  rw [if_neg hsingle] at hattached
  rcases hattached with hbound | hended
  · refine ⟨card.apply (.failed none), ?_, ControlCard.failed_ended⟩
    have hparent : (s.updateTask h EngineTask.stop).pendingChildren task.job = none := by
      cases hparent : s.pendingChildren task.job with
      | none => exact hparent
      | some parent =>
        -- a job with a parent is one of several files
        obtain ⟨hbacked, hkindOf⟩ := hs.wired.parent _ _ hparent
        have hsame := hs.wired.job_card hbacked htask rfl
        rw [hcard] at hsame
        obtain rfl := Option.some.inj hsame
        exact absurd (Option.some.inj ((kind_of_card hfound).symm.trans hkindOf)) hsingle
    unfold sourceEnded
    dsimp only
    rw [hparent]
    dsimp only
    rw [show (s.updateTask h EngineTask.stop).engineToCard task.job = some c from hbound]
    dsimp only
    rw [card_update_card]
    show Option.map _ s.cards[c]? = _
    rw [hfound, Option.map_some, if_pos rfl]
    rfl
  · exact ⟨after, hafter, hkept.ended hended⟩

/-- The jobs at the places stand for all that is open on the card. -/
def Covered (s : ControlDesk) (push : Nat) (places : List Nat) (card : ControlCard) : Prop :=
  (∃ k ∈ places, ∃ source, s.tasks[k]? = some source ∧ ServedFor push source) ∧
    (card.kind = .batchPush → ∀ child ∈ card.activeChildren, ∃ k ∈ places, ∃ source,
      s.tasks[k]? = some source ∧ ServedFor push source ∧ child.job = some source.job)

/-- Once they have all ended, the card has. -/
theorem cleanup_lands {owner : EngineTask} {places : List Nat} (hs : s.Tied)
    (howner : s.tasks[push]? = some owner) (hcard : owner.card = some c)
    (hfound : s.cards[c]? = some card) (hopen : card.Ended ∨ s.Covered push places card) :
    ∃ after, (places.foldl (cleanupOne push) s).cards[c]? = some after ∧ after.Ended := by
  induction places generalizing s owner card with
  | nil =>
    rcases hopen with hended | ⟨⟨k, hk, -⟩, -⟩
    · exact ⟨card, hfound, hended⟩
    · cases hk
  | cons place places ih =>
    have hcalm : Calm (fun _ => True) s (cleanupOne push s place) := calm_cleanup_one push
    obtain ⟨owner', howner', hsameOwner⟩ := hcalm.task_on howner
    obtain ⟨after, hafter, hkept⟩ := hcalm.card_on hfound
    refine ih (hs.calm hcalm (hs.wired.cleanup_one push)) howner' (hsameOwner.card.trans hcard)
      hafter ?_
    rcases hopen with hended | ⟨⟨k, hk, source, hsource, hserved⟩, hchildren⟩
    · exact .inl (hkept.ended hended)
    · -- a job that is served at a later place still is
      have hlater : ∀ (k : Nat) (source : EngineTask), place ≠ k → k ∈ place :: places →
          s.tasks[k]? = some source → k ∈ places ∧
            (cleanupOne push s place).tasks[k]? = some source := by
        intro k source hne hmem hsource
        refine ⟨(List.mem_cons.mp hmem).resolve_left fun heq => hne heq.symm, ?_⟩
        rw [cleanup_one_task, hsource, Option.map_some, if_neg fun hboth => hne hboth.1]
      by_cases hhere : ∃ source, s.tasks[place]? = some source ∧ ServedFor push source
      · obtain ⟨source, hsource, hserved⟩ := hhere
        have hbehind : source.card = some c :=
          (hs.wired.served_card hsource howner hserved.1 hserved.2.2).trans hcard
        have hstep : cleanupOne push s place = s.sourceEnded place source false := by
          unfold cleanupOne
          rw [hsource]
          exact if_pos hserved
        rw [hstep] at hafter
        by_cases hbatch : card.kind = .batchPush
        · have heq := source_ended_batch hs hsource hserved.1 hserved.2.1 (by
            simp [hserved.2.2]) hbehind hfound hbatch
          obtain rfl := Option.some.inj (hafter.symm.trans heq)
          by_cases hquiet : (card.finishChild source.job .failed).activeChildren = []
          · left
            refine ControlCard.recheck_ended ?_ ?_
            · have hsome := ControlCard.finish_child_children card source.job
              unfold ControlCard.finishChild at hsome
              dsimp only at hsome
              rwa [ControlCard.recheck_children] at hsome
            · unfold ControlCard.finishChild at hquiet
              dsimp only at hquiet
              rwa [ControlCard.recheck_active] at hquiet
          · right
            have hcover : ∀ child ∈ (card.finishChild source.job .failed).activeChildren,
                ∃ k ∈ places, ∃ source, (cleanupOne push s place).tasks[k]? = some source ∧
                  ServedFor push source ∧ child.job = some source.job := by
              intro child hchild
              obtain ⟨hactive, hjob⟩ := ControlCard.finish_child_active
                (hs.distinct c card hfound) hchild
              obtain ⟨k, hk, other, hother, hserved', hchildJob⟩ := hchildren hbatch child hactive
              have hne : place ≠ k := by
                rintro rfl
                obtain rfl := Option.some.inj (hother.symm.trans hsource)
                exact hjob hchildJob
              obtain ⟨hmem, hstill⟩ := hlater k other hne hk hother
              exact ⟨k, hmem, other, hstill, hserved', hchildJob⟩
            obtain ⟨child, hchild⟩ := List.exists_mem_of_ne_nil _ hquiet
            obtain ⟨k, hk, other, hother, hserved', -⟩ := hcover child hchild
            exact ⟨⟨k, hk, other, hother, hserved'⟩, fun _ => hcover⟩
        · obtain ⟨ended, hended, hmeets⟩ := source_ended_single hs hsource hserved.1 hserved.2.1
            (by simp [hserved.2.2]) hbehind hfound hbatch
          obtain rfl := Option.some.inj (hafter.symm.trans hended)
          exact .inl hmeets
      · -- nothing is served at this place
        have hne : ∀ (k : Nat) (source : EngineTask), s.tasks[k]? = some source →
            ServedFor push source → place ≠ k := by
          rintro k source hsource hserved rfl
          exact hhere ⟨source, hsource, hserved⟩
        have hstep : cleanupOne push s place = s := by
          unfold cleanupOne
          cases htask : s.tasks[place]? with
          | none => rfl
          | some task => exact if_neg fun hserved => hhere ⟨task, htask, hserved⟩
        rw [hstep] at hafter
        obtain rfl := Option.some.inj (hafter.symm.trans hfound)
        obtain ⟨hmem, hstill⟩ := hlater k source (hne k source hsource hserved) hk hsource
        refine .inr ⟨⟨k, hmem, source, hstill, hserved⟩, fun hbatch child hchild => ?_⟩
        obtain ⟨k, hk, other, hother, hserved', hjob⟩ := hchildren hbatch child hchild
        obtain ⟨hmem, hstill⟩ := hlater k other (hne k other hother hserved') hk hother
        exact ⟨k, hmem, other, hstill, hserved', hjob⟩

/-- A push that stops at its cancel flag leaves an ended card. -/
theorem push_failed_lands (hs : s.Tied) (htask : s.tasks[h]? = some task)
    (hkind : task.kind = .push) (hcard : task.card = some c) (hfound : s.cards[c]? = some card)
    (hlands : s.Lands h task card) :
    ∃ after, (s.pushFailed h task c).cards[c]? = some after ∧ after.flag = none ∧ after.Ended := by
  have hstop : Calm (· = c) s (s.updateTask h EngineTask.stop) := calm_end_push rfl htask hcard
  have hstopped := hs.calm hstop hs.wired.end_task
  have howner : (s.updateTask h EngineTask.stop).tasks[h]? = some task.stop := by
    rw [task_update_task, htask, Option.map_some, if_pos rfl]
  -- a job that is served is not the push
  have hjobs : ∀ source ∈ s.tasks, ServedFor h source →
      ∃ k ∈ List.range (s.updateTask h EngineTask.stop).tasks.length,
        (s.updateTask h EngineTask.stop).tasks[k]? = some source := by
    intro source hmem hserved
    obtain ⟨k, hk⟩ := List.mem_iff_getElem?.mp hmem
    have hne : h ≠ k := by
      rintro rfl
      obtain rfl := Option.some.inj (hk.symm.trans htask)
      exact absurd (hkind.symm.trans hserved.1) (by simp)
    refine ⟨k, List.mem_range.mpr ?_, ?_⟩
    · rw [tasks_length_update_task]
      exact (List.getElem?_eq_some_iff.mp hk).1
    · rw [task_update_task, hk, Option.map_some, if_neg hne]
  have hcleanup : Calm (· = c) (s.updateTask h EngineTask.stop)
      ((s.updateTask h EngineTask.stop).cleanupPushSenders h) := calm_cleanup h
  obtain ⟨cleaned, hcleaned, -⟩ := hcleanup.card_on hfound
  have hlast : ∀ f, (((s.updateTask h EngineTask.stop).cleanupPushSenders h).updateCard c f).cards[c]? =
      some (f cleaned) := by
    intro f
    rw [card_update_card, hcleaned, Option.map_some, if_pos rfl]
  unfold pushFailed
  dsimp only
  cases hstarted : task.started with
  | false =>
    rw [if_neg (by simp), card_update_card, hlast, Option.map_some, if_pos rfl]
    exact ⟨_, rfl, rfl, ControlCard.failed_ended⟩
  | true =>
    rw [if_pos rfl, hlast]
    refine ⟨_, rfl, rfl, ?_⟩
    have hopen : card.Ended ∨ (s.updateTask h EngineTask.stop).Covered h
        (List.range (s.updateTask h EngineTask.stop).tasks.length) card := by
      rcases hlands.2 with hended | hnew | ⟨⟨source, hmem, hserved⟩, hchildren⟩
      · exact .inl hended
      · rw [hstarted] at hnew
        cases hnew
      · obtain ⟨k, hk, hsource⟩ := hjobs source hmem hserved
        refine .inr ⟨⟨k, hk, source, hsource, hserved⟩, fun hbatch child hchild => ?_⟩
        obtain ⟨source, hmem, hserved, hjob⟩ := hchildren hbatch child hchild
        obtain ⟨k, hk, hsource⟩ := hjobs source hmem hserved
        exact ⟨k, hk, source, hsource, hserved, hjob⟩
    obtain ⟨after, hafter, hmeets⟩ := cleanup_lands hstopped howner hcard hfound hopen
    obtain rfl := Option.some.inj (hcleaned.symm.trans hafter)
    exact hmeets

/-- A push that is done leaves an ended card. -/
theorem push_done_lands (hs : s.Wired) (htask : s.tasks[h]? = some task)
    (hkind : task.kind = .push) (hcard : task.card = some c) (hfound : s.cards[c]? = some card) (hlands : s.DoneLands h task card) :
    ∃ after, (s.pushDone h task c).cards[c]? = some after ∧ after.flag = none ∧ after.Ended := by
  have hclear : (((s.updateTask h EngineTask.stop).updateCard c ControlCard.clearFlag)).cards[c]? =
      some card.clearFlag := by
    rw [card_update_card]
    show Option.map _ s.cards[c]? = _
    rw [hfound, Option.map_some, if_pos rfl]
  have hkindOf : ((s.updateTask h EngineTask.stop).updateCard c ControlCard.clearFlag).kindOf c =
      some card.kind :=
    (kind_of_card hclear : _ = some card.clearFlag.kind)
  unfold pushDone
  dsimp only
  rw [hkindOf]
  split
  · next hbatch =>
    rw [card_update_card, hclear, Option.map_some, if_pos rfl]
    have hflag : (finishSmalls task.smalls card.clearFlag).flag = none := by
      have hkept : CalmCard True card.clearFlag (finishSmalls task.smalls card.clearFlag) :=
        calm_finish_smalls
      rcases hkept.flag with hsame | ⟨-, hnone⟩
      · exact hsame
      · exact hnone
    refine ⟨_, rfl, hflag, finish_smalls_ended ?_⟩
    rcases hlands.2 with hended | ⟨hnot, -⟩ | ⟨hchildren, hnames, hjobless, hcount⟩
    · exact .inl hended
    · exact absurd (Option.some.inj hbatch) hnot
    · exact .inr ⟨hchildren, hnames, hjobless, hcount⟩
  · next hsingle =>
    rw [card_update_card, hclear, Option.map_some, if_pos rfl]
    refine ⟨_, rfl, rfl, ?_⟩
    rcases hlands.2 with hended | ⟨-, hopen⟩ | hsmalls
    · exact (calm_apply (P := True)).ended hended
    · exact ControlCard.finished_ended hopen
    · -- a card of one file has no children
      have hpush := hs.kind_of_task htask hcard hfound
      rw [hkind] at hpush
      have hone : card.kind = .push := hpush.resolve_right fun hbatch => hsingle (congrArg some hbatch)
      exact absurd ((hs.plain c card hfound).childless (by simp [hone]) (by simp [hone])) hsmalls.1

end Cleanup

end ControlDesk

end LocalTrans.Desktop
