import LocalTrans.Foundation.Places
import LocalTrans.Mobile.CancelArbitration

/-!
# The steps of the arbitration of a cancel

What the desk of `CancelArbitration` keeps with every step that meets the guard (`CancelInv`): a row
that has to be removed has a task that removes it, the handle names a watchdog that nobody aborted,
at most one handler or call is to report the removal, and a row that is gone without having been
reported is owed a report by a task. There is one lemma for each way a step can change the desk.
-/

namespace LocalTrans.Ffi

open Foundation

namespace CancelDesk

variable {s next : CancelDesk} {i j handle : Nat} {task other : CancelTask}
  {point : CancelPoint} {trace said : List CancelEvent} {ev : CardEvent} {before after : Row}

/-- The tasks after one of them went on. -/
theorem get_go_to (htask : s.tasks[i]? = some task) :
    (s.goTo i task point).tasks[j]? =
      if j = i then some { task with point := point } else s.tasks[j]? :=
  get_set htask

/-- The tasks after a new one was spawned. -/
theorem get_spawn :
    (s.spawn point).tasks[j]? =
      if j = s.tasks.length then some { point := point, aborted := false } else s.tasks[j]? :=
  get_append

/-- A task that is to tell the app of a row that is gone. -/
def owesReport (row : Option Row) (task : CancelTask) : Bool :=
  task.point = .clearing ∨ (row = none ∧ task.point.reports = true)

/-- What holds of one task. -/
structure TaskOk (trace : List CancelEvent) (row : Option Row) (task : CancelTask) : Prop where
  aborted : task.aborted = true → task.point.hung = true ∨ task.point = .ended
  saw : task.point.saw = true → .cancelling ∈ trace
  hung : task.point.hung = true → .ok ∈ trace
  forgets : task.point = .forgetting → row.map Row.state ≠ some .cancelling
  event : task.point.event ≠ some .cancelRequested

/-- The row has to be removed. -/
def Due (trace : List CancelEvent) (s : CancelDesk) : Prop :=
  s.stateOf = some .cancelling ∨
    (Committed trace s ∧ ∃ state, s.stateOf = some state ∧ state.Terminal)

/-- What the desk keeps. -/
structure CancelInv (trace : List CancelEvent) (s : CancelDesk) : Prop where
  rows : trace.count .removed = if s.row = none then 1 else 0
  reports : trace.count .reported + s.tasks.countP (owesReport s.row) ≤ trace.count .removed
  told : Committed trace s → s.row = none →
    0 < trace.count .reported + s.tasks.countP (owesReport s.row)
  handle : ∀ w, s.watchdog = some w → ∃ task : CancelTask, s.tasks[w]? = some task ∧
    task.aborted = false ∧ task.point.watching = true
  each : ∀ (j : Nat) (task : CancelTask), s.tasks[j]? = some task → TaskOk trace s.row task
  began : s.stateOf = some .cancelling → .cancelling ∈ trace
  ending : .cancelling ∈ trace → ∀ row, s.row = some row → Ending row.state
  answered : .ok ∈ trace → .cancelling ∈ trace ∨ s.row = none
  due : Due trace s → ∃ (j : Nat) (task : CancelTask), s.tasks[j]? = some task ∧ s.Removes task
  single : ∀ (j k : Nat) (task other : CancelTask), s.tasks[j]? = some task →
    s.tasks[k]? = some other → task.point.reports = true → other.point.reports = true → j = k

namespace TaskOk

variable {row : Option Row}

/-- The history only grows. -/
theorem mono (h : TaskOk trace row task) (said : List CancelEvent) :
    TaskOk (trace ++ said) row task where
  __ := h
  saw hsaw := List.mem_append_left _ (h.saw hsaw)
  hung hhung := List.mem_append_left _ (h.hung hhung)

/-- A task that is none of the watchdog's and has seen nothing. -/
theorem plain (haborted : task.aborted = false) (hsaw : task.point.saw = false)
    (hhung : task.point.hung = false) (hevent : task.point.event ≠ some .cancelRequested) :
    TaskOk trace row task where
  aborted htrue := by
    rw [haborted] at htrue
    cases htrue
  saw htrue := by
    rw [hsaw] at htrue
    cases htrue
  hung htrue := by
    rw [hhung] at htrue
    cases htrue
  forgets heq := by
    rw [heq] at hhung
    cases hhung
  event := hevent

/-- A task that has ended. -/
theorem ended : TaskOk trace row { task with point := .ended } where
  aborted _ := .inr rfl
  saw htrue := by cases htrue
  hung htrue := by cases htrue
  forgets heq := by cases heq
  event heq := by cases heq

end TaskOk

section Reports

variable {row : Option Row}

/-- While the row is there, only a task past it owes a report. -/
theorem owes_of_there (h : row ≠ none) (task : CancelTask) :
    owesReport row task = decide (task.point = .clearing) := by
  simp only [owesReport, h, false_and, or_false]

/-- A task goes on that is not past the row, and claims to remove it as before. -/
theorem owes_same (hold : task.point ≠ .clearing) (hnew : point ≠ .clearing)
    (hreports : point.reports = task.point.reports) :
    owesReport row { task with point := point } = owesReport row task := by
  simp only [owesReport, hold, hnew, hreports]

end Reports

namespace CancelInv

/-- A task goes on, and neither the row nor the handle changes. -/
theorem go_to (h : CancelInv trace s) (htask : s.tasks[i]? = some task) (point : CancelPoint)
    (hok : TaskOk trace s.row { task with point := point })
    (hhandle : s.watchdog = some i → point.watching = true)
    (hkeeps : Due trace s → s.Removes task → s.Removes { task with point := point } ∨
      ∃ (j : Nat) (other : CancelTask), s.tasks[j]? = some other ∧ j ≠ i ∧ s.Removes other)
    (hcommits : point = .hanging → s.stateOf = some .cancelling)
    (hsingle : point.reports = true → task.point.reports = true ∨ s.Unclaimed)
    (howes : owesReport s.row { task with point := point } = owesReport s.row task) :
    CancelInv trace (s.goTo i task point) where
  __ := h
  reports := by
    show _ + (s.tasks.set i _).countP (owesReport s.row) ≤ _
    rw [countP_set_same htask howes]
    exact h.reports
  told hcommitted hrow := by
    show 0 < _ + (s.tasks.set i _).countP (owesReport s.row)
    rw [countP_set_same htask howes]
    have hgone : s.row = none := hrow
    refine h.told ?_ hgone
    rcases hcommitted with hok | ⟨found, hmem, hhanging⟩
    · exact .inl hok
    · rcases List.mem_or_eq_of_mem_set hmem with hmem | rfl
      · exact .inr ⟨found, hmem, hhanging⟩
      · have hstate := hcommits hhanging
        rw [stateOf, hgone] at hstate
        cases hstate
  handle w hw := by
    obtain ⟨found, hfound, halive, hwatching⟩ := h.handle w hw
    rcases set_cases htask hfound with ⟨rfl, rfl, hset⟩ | ⟨-, hset⟩
    · exact ⟨_, hset _, halive, hhandle hw⟩
    · exact ⟨found, hset _, halive, hwatching⟩
  each := forall_set htask hok h.each
  due hdue := by
    have hbefore : Due trace s := by
      rcases hdue with hstate | ⟨hok | ⟨found, hmem, hhanging⟩, state, hstate, hterminal⟩
      · exact .inl hstate
      · exact .inr ⟨.inl hok, state, hstate, hterminal⟩
      · rcases List.mem_or_eq_of_mem_set hmem with hmem | rfl
        · exact .inr ⟨.inr ⟨found, hmem, hhanging⟩, state, hstate, hterminal⟩
        · exact .inl (hcommits hhanging)
    obtain ⟨j, found, hfound, hremoves⟩ := h.due hbefore
    rcases set_cases htask hfound with ⟨rfl, rfl, hset⟩ | ⟨-, hset⟩
    · rcases hkeeps hbefore hremoves with hsame | ⟨k, other, hother, hne, hremoves⟩
      · exact ⟨j, _, hset _, hsame⟩
      · exact ⟨k, other, (get_go_to htask).trans ((if_neg hne).trans hother), hremoves⟩
    · exact ⟨j, found, hset _, hremoves⟩
  single j k one two hone htwo hreports hagain := by
    rw [get_go_to htask] at hone htwo
    split at hone
    · next hj =>
      obtain rfl := Option.some.inj hone
      split at htwo
      · next hk => rw [hj, hk]
      · next hk =>
        rcases hsingle hreports with hbefore | hfree
        · exact absurd (h.single k i two task htwo htask hagain hbefore) hk
        · rw [hfree two (List.mem_of_getElem? htwo)] at hagain
          cases hagain
    · next hj =>
      split at htwo
      · next hk =>
        obtain rfl := Option.some.inj htwo
        rcases hsingle hagain with hbefore | hfree
        · exact absurd (h.single j i one task hone htask hreports hbefore) hj
        · rw [hfree one (List.mem_of_getElem? hone)] at hreports
          cases hreports
      · exact h.single j k one two hone htwo hreports hagain

/-- A new task, which is no watchdog and in nobody's way. -/
theorem spawn (h : CancelInv trace s) (point : CancelPoint)
    (hok : TaskOk trace s.row { point := point, aborted := false })
    (hreports : point.reports = false) (hhanging : point ≠ .hanging)
    (hclearing : point ≠ .clearing) :
    CancelInv trace (s.spawn point) where
  __ := h
  reports := by
    have hnone : owesReport s.row { point := point, aborted := false } = false := by
      simp [owesReport, hclearing, hreports]
    show _ + (s.tasks ++ [_]).countP (owesReport s.row) ≤ _
    rw [List.countP_append, List.countP_singleton, hnone]
    exact h.reports
  told hcommitted hrow := by
    have hnone : owesReport s.row { point := point, aborted := false } = false := by
      simp [owesReport, hclearing, hreports]
    show 0 < _ + (s.tasks ++ [_]).countP (owesReport s.row)
    rw [List.countP_append, List.countP_singleton, hnone]
    refine h.told ?_ hrow
    rcases hcommitted with hok | ⟨found, hmem, heq⟩
    · exact .inl hok
    · rcases List.mem_append.mp hmem with hmem | hmem
      · exact .inr ⟨found, hmem, heq⟩
      · obtain rfl := List.mem_singleton.mp hmem
        exact absurd heq hhanging
  handle w hw := by
    obtain ⟨found, hfound, hrest⟩ := h.handle w hw
    exact ⟨found, get_append_of hfound, hrest⟩
  each := forall_append hok h.each
  due hdue := by
    have hbefore : Due trace s := by
      rcases hdue with hstate | ⟨hok | ⟨found, hmem, heq⟩, state, hstate, hterminal⟩
      · exact .inl hstate
      · exact .inr ⟨.inl hok, state, hstate, hterminal⟩
      · rcases List.mem_append.mp hmem with hmem | hmem
        · exact .inr ⟨.inr ⟨found, hmem, heq⟩, state, hstate, hterminal⟩
        · obtain rfl := List.mem_singleton.mp hmem
          exact absurd heq hhanging
    obtain ⟨j, found, hfound, hrest⟩ := h.due hbefore
    exact ⟨j, found, get_append_of hfound, hrest⟩
  single j k one two hone htwo hone' htwo' := by
    rw [get_spawn] at hone htwo
    split at hone
    · obtain rfl := Option.some.inj hone
      exact absurd hone' (by rw [hreports]; decide)
    · split at htwo
      · obtain rfl := Option.some.inj htwo
        exact absurd htwo' (by rw [hreports]; decide)
      · exact h.single j k one two hone htwo hone' htwo'

/-- The handle is forgotten. -/
theorem unhang (h : CancelInv trace s) : CancelInv trace { s with watchdog := none } where
  __ := h
  handle w hw := by cases hw

/-- A call hangs a watchdog. -/
theorem hang (h : CancelInv trace s) (hcancelling : .cancelling ∈ trace) (hok : .ok ∈ trace) :
    CancelInv trace ({ s with watchdog := some s.tasks.length }.spawn .sleeping) := by
  have hspawn := h.unhang.spawn .sleeping
    ⟨fun _ => .inl rfl, fun _ => hcancelling, fun _ => hok, nofun, nofun⟩ rfl nofun nofun
  refine { hspawn with handle := fun w hw => ?_ }
  obtain rfl := Option.some.inj hw
  exact ⟨{ point := .sleeping, aborted := false }, get_spawn.trans (if_pos rfl), rfl, rfl⟩

/-- A task is aborted that no handle names any more: it is in `finalize_remove` already, or another
one removes the row. -/
theorem abort (h : CancelInv trace s) (hnamed : s.watchdog ≠ some i)
    (htask : s.tasks[i]? = some task) (hhung : task.point.hung = true)
    (hcover : task.point = .removing .watchdog ∨
      ∃ (j : Nat) (other : CancelTask), s.tasks[j]? = some other ∧ j ≠ i ∧ s.Removes other) :
    CancelInv trace (s.abort i) := by
  have habort : s.abort i = { s with tasks := s.tasks.set i { task with aborted := true } } := by
    unfold CancelDesk.abort
    rw [htask]
  have hback : ∀ (j : Nat) (found : CancelTask),
      (s.tasks.set i { task with aborted := true })[j]? = some found →
        ∃ old : CancelTask, s.tasks[j]? = some old ∧ old.point = found.point :=
    forall_set htask ⟨task, htask, rfl⟩ fun j found hfound => ⟨found, hfound, rfl⟩
  have hcount : (s.tasks.set i { task with aborted := true }).countP (owesReport s.row) =
      s.tasks.countP (owesReport s.row) := countP_set_same htask rfl
  have hcommitted : Committed trace
      { s with tasks := s.tasks.set i { task with aborted := true } } → Committed trace s := by
    rintro (hok | ⟨found, hmem, hhanging⟩)
    · exact .inl hok
    · obtain ⟨j, hfound⟩ := List.mem_iff_getElem?.mp hmem
      obtain ⟨old, hold, hpoint⟩ := hback j found hfound
      exact .inr ⟨old, List.mem_of_getElem? hold, hpoint.trans hhanging⟩
  have hkept := h.each i task htask
  rw [habort]
  exact { h with
    reports := hcount ▸ h.reports
    told := fun hcommits => hcount ▸ h.told (hcommitted hcommits)
    handle := fun w hw => by
      obtain ⟨found, hfound, hrest⟩ := h.handle w hw
      rcases set_cases htask hfound with ⟨rfl, -, -⟩ | ⟨-, hset⟩
      · exact absurd hw hnamed
      · exact ⟨found, hset _, hrest⟩
    each := forall_set htask
      ⟨fun _ => .inl hhung, hkept.saw, hkept.hung, hkept.forgets, hkept.event⟩ h.each
    due := fun hdue => by
      obtain ⟨j, found, hfound, hremoves⟩ := h.due (hdue.imp_right fun ⟨hcommits, hrest⟩ =>
        ⟨hcommitted hcommits, hrest⟩)
      rcases set_cases htask hfound with ⟨rfl, rfl, hset⟩ | ⟨-, hset⟩
      · rcases hcover with hpoint | ⟨k, other, hget, hne, hremoves⟩
        · refine ⟨j, _, hset _, .inl ?_⟩
          simp only [CancelTask.Finishes, hpoint]
        · exact ⟨k, other, (get_set htask).trans ((if_neg hne).trans hget), hremoves⟩
      · exact ⟨j, found, hset _, hremoves⟩
    single := fun j k one two hone htwo hreports hagain => by
      obtain ⟨old, hold, hpoint⟩ := hback j one hone
      obtain ⟨old', hold', hpoint'⟩ := hback k two htwo
      exact h.single j k old old' hold hold' (hpoint ▸ hreports) (hpoint' ▸ hagain) }

/-- A cancel returns `Ok` that could not fail any more. -/
theorem say_ok (h : CancelInv trace s) (hcommitted : Committed trace s)
    (hcancelling : .cancelling ∈ trace) : CancelInv (trace ++ [.ok]) s where
  __ := h
  rows := by simpa using h.rows
  reports := by simpa using h.reports
  told _ hrow := by simpa using h.told hcommitted hrow
  each j found hfound := (h.each j found hfound).mono _
  began _ := List.mem_append_left _ hcancelling
  ending _ := h.ending hcancelling
  answered _ := .inl (List.mem_append_left _ hcancelling)
  due hdue := by
    refine h.due ?_
    rcases hdue with hstate | ⟨-, hterminal⟩
    · exact .inl hstate
    · exact .inr ⟨hcommitted, hterminal⟩

/-- The row is written back. -/
theorem set_row (h : CancelInv trace s) (hrow : s.row = some before)
    (hsaid : said = [] ∨ said = [.cancelling])
    (hbegan : after.state = .cancelling → .cancelling ∈ trace ++ said)
    (hending : .cancelling ∈ trace ++ said → Ending after.state)
    (hsame : .cancelling ∈ trace → after.state = .cancelling → before.state = .cancelling)
    (hdue : after.state = .cancelling ∨ (Committed trace s ∧ after.state.Terminal) →
      ∃ (j : Nat) (task : CancelTask), s.tasks[j]? = some task ∧
        ({ s with row := some after } : CancelDesk).Removes task) :
    CancelInv (trace ++ said) { s with row := some after } := by
  have hsilent : ∀ event, event ≠ CancelEvent.cancelling →
      (trace ++ said).count event = trace.count event := by
    intro event hne
    rcases hsaid with rfl | rfl
    · rw [List.append_nil]
    · rw [List.count_append, List.count_singleton, beq_eq_false_iff_ne.mpr (Ne.symm hne)]
      rfl
  have hok : .ok ∈ trace ++ said → .ok ∈ trace := by
    rcases hsaid with rfl | rfl
    · simp
    · simp
  have hthere : s.row ≠ none := by simp [hrow]
  refine ⟨?_, ?_, ?_, h.handle, ?_, ?_, ?_, ?_, ?_, h.single⟩
  · rw [hsilent _ (by decide), h.rows, hrow]
    rfl
  · have hsame : owesReport (some after) = owesReport s.row := by
      funext task
      rw [owes_of_there hthere, owes_of_there (by simp)]
    show _ + s.tasks.countP (owesReport (some after)) ≤ _
    rw [hsilent _ (by decide), hsilent _ (by decide), hsame]
    exact h.reports
  · exact fun _ hnone => by cases hnone
  · intro j found hfound
    have hkept := h.each j found hfound
    refine ⟨hkept.aborted, fun htrue => List.mem_append_left _ (hkept.saw htrue),
      fun htrue => List.mem_append_left _ (hkept.hung htrue), fun heq hstate => ?_,
      hkept.event⟩
    refine hkept.forgets heq ?_
    rw [hrow]
    exact congrArg some (hsame (hkept.saw (by rw [heq]; rfl)) (Option.some.inj hstate))
  · exact fun hstate => hbegan (Option.some.inj hstate)
  · rintro hmem row hrow
    obtain rfl := Option.some.inj hrow
    exact hending hmem
  · intro hmem
    rcases h.answered (hok hmem) with hcancelling | hnone
    · exact .inl (List.mem_append_left _ hcancelling)
    · rw [hrow] at hnone
      cases hnone
  · intro hnew
    refine hdue ?_
    rcases hnew with hstate | ⟨hcommitted, state, hstate, hterminal⟩
    · exact .inl (Option.some.inj hstate)
    · obtain rfl := Option.some.inj hstate
      exact .inr ⟨hcommitted.imp_left hok, hterminal⟩

/-- A task that is no watchdog goes on: the handle names the watchdog it named. -/
theorem handle_go_to (h : CancelInv trace s) (htask : s.tasks[i]? = some task)
    (hwatching : task.point.watching = false) {w : Nat} (hw : s.watchdog = some w) :
    ∃ found : CancelTask, (s.goTo i task point).tasks[w]? = some found ∧ found.aborted = false ∧
      found.point.watching = true := by
  obtain ⟨found, hfound, hrest⟩ := h.handle w hw
  rcases set_cases htask hfound with ⟨-, rfl, -⟩ | ⟨-, hset⟩
  · rw [hwatching] at hrest
    cases hrest.2
  · exact ⟨found, hset _, hrest⟩

/-- The row leaves the table: no task sees it `cancelling` any more. -/
theorem each_gone (h : CancelInv trace s) (htask : s.tasks[j]? = some task) :
    TaskOk trace none task where
  aborted := (h.each j task htask).aborted
  saw := (h.each j task htask).saw
  hung := (h.each j task htask).hung
  forgets _ := nofun
  event := (h.each j task htask).event

/-- A task removes the row, and no other task is to report that. -/
theorem remove_row (h : CancelInv trace s) (htask : s.tasks[i]? = some task)
    (hpoint : task.point.watching = false) (howes : task.point ≠ .clearing)
    (hrow : s.row ≠ none)
    (hfree : ∀ (j : Nat) (other : CancelTask), s.tasks[j]? = some other → j ≠ i →
      other.point.reports = false)
    (hsaid : (point = .ended ∧ said = [.removed, .reported]) ∨
      (point = .clearing ∧ said = [.removed] ∧ task.aborted = false)) :
    CancelInv (trace ++ said) ({ s with row := none }.goTo i task point) := by
  have hnone : trace.count .removed = 0 := by rw [h.rows, if_neg hrow]
  have hback : ∀ (j : Nat) (found : CancelTask),
      ({ s with row := none }.goTo i task point).tasks[j]? = some found →
        found = { task with point := point } ∨ (j ≠ i ∧ s.tasks[j]? = some found) := by
    intro j found hfound
    rw [get_go_to (s := { s with row := none }) htask] at hfound
    split at hfound
    · exact .inl (Option.some.inj hfound).symm
    · next hj => exact .inr ⟨hj, hfound⟩
  have hquiet : ∀ (j : Nat) (found : CancelTask),
      ({ s with row := none }.goTo i task point).tasks[j]? = some found →
        found.point.reports = false := by
    intro j found hfound
    rcases hback j found hfound with rfl | ⟨hne, hold⟩
    · rcases hsaid with ⟨rfl, -⟩ | ⟨rfl, -, -⟩
      · rfl
      · rfl
    · exact hfree j found hold hne
  -- before and after, a report is owed at `clearing` only
  have hcount : (s.tasks.set i { task with point := point }).countP (owesReport none) =
      (s.tasks.set i { task with point := point }).countP (owesReport s.row) := by
    refine List.countP_congr fun found hmem => ?_
    obtain ⟨j, hfound⟩ := List.mem_iff_getElem?.mp hmem
    rw [owes_of_there hrow]
    simp [owesReport, hquiet j found hfound]
  have htotal : (trace ++ said).count .reported +
      (s.tasks.set i { task with point := point }).countP (owesReport none) =
        trace.count .reported + s.tasks.countP (owesReport s.row) + 1 := by
    have hold : owesReport s.row task = false := by simp [owes_of_there hrow, howes]
    have hset := countP_set_add (b := { task with point := point }) (owesReport s.row) htask
    rw [hold, owes_of_there hrow] at hset
    rw [hcount, List.count_append]
    rcases hsaid with ⟨rfl, rfl⟩ | ⟨rfl, rfl, -⟩
    · change _ + 0 = _ + 0 at hset
      show _ + 1 + _ = _
      omega
    · change _ + 0 = _ + 1 at hset
      show _ + 0 + _ = _
      omega
  have hremoved : (trace ++ said).count .removed = 1 := by
    rw [List.count_append, hnone]
    rcases hsaid with ⟨-, rfl⟩ | ⟨-, rfl, -⟩
    · rfl
    · rfl
  refine ⟨hremoved, ?_, fun _ _ => ?_, fun w hw => h.handle_go_to htask hpoint hw, ?_, nofun, nofun,
    fun _ => .inr rfl, ?_, ?_⟩
  · have hreports := h.reports
    show _ + (s.tasks.set i _).countP (owesReport none) ≤ _
    rw [htotal, hremoved]
    omega
  · show 0 < _ + (s.tasks.set i _).countP (owesReport none)
    rw [htotal]
    exact Nat.succ_pos _
  · intro j found hfound
    rcases hback j found hfound with rfl | ⟨-, hold⟩
    · rcases hsaid with ⟨rfl, -⟩ | ⟨rfl, -, halive⟩
      · exact .ended
      · exact .plain halive rfl rfl nofun
    · exact (h.each_gone hold).mono said
  · rintro (hstate | ⟨-, state, hstate, -⟩)
    · cases hstate
    · cases hstate
  · intro j k one two hone htwo hreports _
    rw [hquiet j one hone] at hreports
    cases hreports

/-- A task tells the app of a row that is gone, and ends. -/
theorem report (h : CancelInv trace s) (htask : s.tasks[i]? = some task)
    (howes : owesReport s.row task = true) (hrow : s.row = none)
    (hwatching : task.point.watching = false)
    (hsaid : said = [.reported] ∨ said = [.reported, .ok]) :
    CancelInv (trace ++ said) (s.goTo i task .ended) := by
  have hpos : 0 < s.tasks.countP (owesReport s.row) :=
    List.countP_pos_iff.mpr ⟨task, List.mem_of_getElem? htask, howes⟩
  have hback : ∀ (j : Nat) (found : CancelTask), (s.goTo i task .ended).tasks[j]? = some found →
      found = { task with point := .ended } ∨ s.tasks[j]? = some found :=
    forall_set htask (.inl rfl) fun _ _ hfound => .inr hfound
  have hsilent : (trace ++ said).count .removed = trace.count .removed := by
    rcases hsaid with rfl | rfl
    · rw [List.count_append]
      rfl
    · rw [List.count_append]
      rfl
  have hreported : (trace ++ said).count .reported = trace.count .reported + 1 := by
    rcases hsaid with rfl | rfl
    · rw [List.count_append]
      rfl
    · rw [List.count_append]
      rfl
  refine ⟨?_, ?_, fun _ _ => ?_, fun w hw => h.handle_go_to htask hwatching hw, ?_,
    fun hstate => List.mem_append_left _ (h.began hstate), ?_, fun _ => .inr hrow, ?_, ?_⟩
  · rw [hsilent]
    exact h.rows
  · have hreports := h.reports
    have hended : owesReport s.row { task with point := .ended } = false := by
      simp [owesReport, CancelPoint.reports]
    have hset := countP_set_add (b := { task with point := .ended }) (owesReport s.row) htask
    rw [howes, hended] at hset
    change _ + 1 = _ + 0 at hset
    show _ + (s.tasks.set i _).countP (owesReport s.row) ≤ _
    rw [hsilent, hreported]
    omega
  · rw [hreported]
    omega
  · exact forall_set htask .ended fun j found hold => (h.each j found hold).mono _
  · intro _ row hsome
    rw [show (s.goTo i task .ended).row = s.row from rfl, hrow] at hsome
    cases hsome
  · rintro (hstate | ⟨-, state, hstate, -⟩)
    · rw [show (s.goTo i task .ended).stateOf = s.stateOf from rfl, stateOf, hrow] at hstate
      cases hstate
    · rw [show (s.goTo i task .ended).stateOf = s.stateOf from rfl, stateOf, hrow] at hstate
      cases hstate
  · intro j k one two hone htwo hreports hagain
    rcases hback j one hone with rfl | hone
    · cases hreports
    · rcases hback k two htwo with rfl | htwo
      · cases hagain
      · exact h.single j k one two hone htwo hreports hagain

/-- The row is taken off the table by a path that tells nobody. -/
theorem discard (h : CancelInv trace s) (hrow : s.row ≠ none)
    (horderly : Committed trace s → ¬ s.Unclaimed) :
    CancelInv (trace ++ [.removed]) { s with row := none } := by
  have hrows := h.rows
  have hreports := h.reports
  rw [if_neg hrow] at hrows
  have hcommitted : Committed (trace ++ [.removed]) ({ s with row := none } : CancelDesk) →
      Committed trace s := by
    rintro (hok | hhanging)
    · exact .inl (by simpa using hok)
    · exact .inr hhanging
  have hcount : s.tasks.countP (owesReport none) =
      s.tasks.countP fun task => task.point.reports := by
    refine List.countP_congr fun task hmem => ?_
    have hnone : s.tasks.countP (owesReport s.row) = 0 := by omega
    have hno := List.countP_eq_zero.mp hnone task hmem
    rw [owes_of_there hrow, decide_eq_true_eq] at hno
    simp [owesReport, hno]
  have hone : (trace ++ [CancelEvent.removed]).count .removed = 1 := by
    rw [List.count_append, hrows]
    rfl
  have hnothing : (trace ++ [CancelEvent.removed]).count .reported = 0 := by
    rw [List.count_append]
    show trace.count .reported + 0 = 0
    omega
  refine ⟨hone, ?_, ?_, h.handle, fun j task htask => (h.each_gone htask).mono _, nofun, nofun,
    fun _ => .inr rfl, ?_, h.single⟩
  · show _ + s.tasks.countP (owesReport none) ≤ _
    rw [hnothing, hone, hcount, Nat.zero_add]
    exact countP_le_one h.single
  · intro hcommits _
    show 0 < _ + s.tasks.countP (owesReport none)
    rw [hnothing, hcount, Nat.zero_add]
    refine List.countP_pos_iff.mpr ?_
    by_contra hnobody
    exact horderly (hcommitted hcommits) fun task hmem =>
      eq_false_of_ne_true fun htrue => hnobody ⟨task, hmem, htrue⟩
  · rintro (hstate | ⟨-, state, hstate, -⟩)
    · cases hstate
    · cases hstate

/-- No handle names a task that is not a watchdog in front of its handle. -/
theorem unwatched (h : CancelInv trace s) (htask : s.tasks[i]? = some task)
    (hpoint : task.point.watching = false) : s.watchdog ≠ some i := by
  intro hhandle
  obtain ⟨found, hfound, -, hwatching⟩ := h.handle _ hhandle
  obtain rfl := Option.some.inj (htask.symm.trans hfound)
  rw [hpoint] at hwatching
  cases hwatching

/-- Only a watchdog is aborted. -/
theorem alive (h : CancelInv trace s) (htask : s.tasks[i]? = some task)
    (hhung : task.point.hung = false) (hended : task.point ≠ .ended) : task.aborted = false := by
  by_contra haborted
  rcases (h.each i task htask).aborted (eq_true_of_ne_false haborted) with htrue | heq
  · rw [hhung] at htrue
    cases htrue
  · exact hended heq

/-- A task that neither removes the row nor is a watchdog goes on. -/
theorem go_on (h : CancelInv trace s) (htask : s.tasks[i]? = some task) (point : CancelPoint)
    (hok : TaskOk trace s.row { task with point := point })
    (hwatching : task.point.watching = false) (hno : ¬ s.Removes task)
    (hcommits : point ≠ .hanging) (hclaims : point.reports = true → s.row ≠ none ∧ s.Unclaimed)
    (hold : task.point ≠ .clearing) (hnew : point ≠ .clearing)
    (hquiet : task.point.reports = false) : CancelInv trace (s.goTo i task point) := by
  refine h.go_to htask point hok (fun hhandle => absurd hhandle (h.unwatched htask hwatching))
    (fun _ hremoves => absurd hremoves hno) (fun heq => absurd heq hcommits)
    (fun hreports => .inr (hclaims hreports).2) ?_
  simp only [owesReport, hold, hnew, hquiet]
  cases hreports : point.reports with
  | false => rfl
  | true => simp [(hclaims hreports).1]

/-- An event that is no request to cancel. -/
theorem event (h : CancelInv trace s) (hev : ev ≠ .cancelRequested)
    (hafter : s.applied ev = some after)
    (hseen : s.stateOf = some .cancelling → after.state.Terminal → SeenTo trace s) :
    CancelInv trace { s with row := some after } := by
  obtain ⟨before, hrow, happly⟩ := Option.bind_eq_some_iff.mp hafter
  have hstate : s.stateOf = some before.state := by
    rw [stateOf, hrow]
    rfl
  have hopen : ¬ before.state.Terminal := by
    intro hterminal
    rw [Row.apply_of_terminal hterminal] at happly
    cases happly
  have hback : after.state = .cancelling → before.state = .cancelling := by
    intro hcancelling
    by_contra hne
    exact hev (Row.apply_cancelling hne happly hcancelling)
  have hcancelling : .cancelling ∈ trace → before.state = .cancelling := fun hmem =>
    (h.ending hmem before hrow).resolve_right hopen
  rw [← List.append_nil trace]
  refine h.set_row hrow (.inl rfl) ?_ ?_ ?_ ?_
  · intro heq
    rw [List.append_nil]
    exact h.began (hstate.trans (congrArg some (hback heq)))
  · intro hmem
    rw [List.append_nil] at hmem
    have hbefore := hcancelling hmem
    rcases Row.apply_of_cancelling hbefore happly with rfl | ⟨-, hterminal⟩
    · exact .inl hbefore
    · exact .inr hterminal
  · exact fun _ heq => hback heq
  · rintro (heq | ⟨hcommitted, hterminal⟩)
    · have hbefore := hstate.trans (congrArg some (hback heq))
      obtain ⟨j, task, htask, hremoves⟩ := h.due (.inl hbefore)
      refine ⟨j, task, htask, ?_⟩
      rcases hremoves with hfinishes | ⟨-, hremoves⟩
      · exact .inl hfinishes
      · exact .inr ⟨congrArg some heq, hremoves⟩
    · have hmem : .cancelling ∈ trace := by
        rcases hcommitted with hok | ⟨task, hmem, hhanging⟩
        · refine (h.answered hok).resolve_right fun hnone => ?_
          rw [hrow] at hnone
          cases hnone
        · obtain ⟨j, htask⟩ := List.mem_iff_getElem?.mp hmem
          exact (h.each j task htask).saw (by rw [hhanging]; rfl)
      have hbefore := hstate.trans (congrArg some (hcancelling hmem))
      obtain ⟨task, htask, hfinishes⟩ := hseen hbefore hterminal hcommitted
      obtain ⟨j, htask⟩ := List.mem_iff_getElem?.mp htask
      exact ⟨j, task, htask, .inl hfinishes⟩

/-- A task takes the handle of the watchdog, if there is one, and aborts it. -/
theorem take_handle (h : CancelInv trace s) (htask : s.tasks[i]? = some task) {who : Finalizer}
    (hpoint : task.point = .taking who) :
    CancelInv trace ({ s with watchdog := none }.goTo i task (.removing who)) ∧
      ∀ handle, s.watchdog = some handle →
        CancelInv trace (({ s with watchdog := none }.goTo i task (.removing who)).abort handle) := by
  have hkept := h.each i task htask
  have hok : TaskOk trace s.row { task with point := .removing who } := by
    cases who with
    | handler | destroy =>
      have halive := h.alive htask (by rw [hpoint]; rfl) (by rw [hpoint]; simp)
      exact .plain halive rfl rfl nofun
    | watchdog =>
      exact ⟨fun _ => .inl rfl, fun _ => hkept.saw (by rw [hpoint]; rfl),
        fun _ => hkept.hung (by rw [hpoint]; rfl), nofun, nofun⟩
  have hmoved : CancelInv trace ({ s with watchdog := none }.goTo i task (.removing who)) := by
    have hsame : (CancelPoint.removing who).reports = task.point.reports := by
      rw [hpoint]
      rfl
    exact h.unhang.go_to htask (.removing who) hok nofun (fun _ _ => .inl (.inl trivial)) nofun
      (fun hreports => .inl (hsame ▸ hreports)) (owes_same (by simp [hpoint]) nofun hsame)
  refine ⟨hmoved, fun handle hhandle => ?_⟩
  have hget : ∀ j : Nat, ({ s with watchdog := none }.goTo i task (.removing who)).tasks[j]? =
      if j = i then some { task with point := .removing who } else s.tasks[j]? := fun j =>
    get_go_to (s := { s with watchdog := none }) htask
  obtain ⟨found, hfound, -, hwatching⟩ := h.handle handle hhandle
  by_cases hself : handle = i
  · -- the watchdog aborts itself, and goes on
    subst hself
    obtain rfl := Option.some.inj (htask.symm.trans hfound)
    rw [hpoint] at hwatching
    cases who with
    | handler | destroy => cases hwatching
    | watchdog =>
      exact hmoved.abort (by simp [goTo]) ((hget handle).trans (if_pos rfl)) rfl (.inl rfl)
  · exact hmoved.abort (by simp [goTo]) ((hget handle).trans ((if_neg hself).trans hfound))
      (CancelPoint.hung_of_watching hwatching)
      (.inr ⟨i, _, (hget i).trans (if_pos rfl), Ne.symm hself, .inl trivial⟩)

/-- A handler applies its event. -/
theorem apply_event (h : CancelInv trace s) (htask : s.tasks[i]? = some task) {was : Bool}
    (hpoint : task.point = .applying ev was)
    (horderly : s.Ends ev → if was = true then s.Unclaimed else SeenTo trace s)
    (hafter : s.applied ev = some after) :
    CancelInv trace ({ s with row := some after }.goTo i task
      (if was = true ∧ after.state.Terminal then .taking .handler else .ended)) := by
  have hwatching : task.point.watching = false := by rw [hpoint]; rfl
  have halive : task.aborted = false := h.alive htask (by rw [hpoint]; rfl) (by simp [hpoint])
  have hev : ev ≠ .cancelRequested := by
    rintro rfl
    exact (h.each i task htask).event (by rw [hpoint]; rfl)
  have hno : ¬ s.Removes task := by
    simp [Removes, CancelTask.WillRemove, CancelTask.Finishes, hpoint]
  obtain ⟨before, hrow, happly⟩ := Option.bind_eq_some_iff.mp hafter
  have hthere : s.row ≠ none := by simp [hrow]
  split
  · next hfinal =>
    -- the row was ending already when the handler looked, so it is `cancelling`
    have hmem : .cancelling ∈ trace :=
      (h.each i task htask).saw (by rw [hpoint]; exact hfinal.1)
    have hbefore : before.state = .cancelling := by
      refine (h.ending hmem before hrow).resolve_right fun hterminal => ?_
      rw [Row.apply_of_terminal hterminal] at happly
      cases happly
    have hstate : s.stateOf = some .cancelling := by
      rw [stateOf, hrow]
      exact congrArg some hbefore
    have hfree := horderly ⟨hstate, after, hafter, hfinal.2⟩
    rw [if_pos hfinal.1] at hfree
    have hmoved := h.go_on htask (.taking .handler) (.plain halive rfl rfl nofun)
      hwatching hno nofun (fun _ => ⟨hthere, hfree⟩) (by simp [hpoint]) nofun (by rw [hpoint]; rfl)
    refine hmoved.event hev hafter fun _ _ _ => ?_
    exact ⟨_, List.mem_of_getElem? ((get_go_to htask).trans (if_pos rfl)), halive⟩
  · next hfinal =>
    have hset := h.event hev hafter fun hstate hterminal => by
      have hseen := horderly ⟨hstate, after, hafter, hterminal⟩
      rw [if_neg fun hwas => hfinal ⟨hwas, hterminal⟩] at hseen
      exact hseen
    exact hset.go_on htask .ended .ended hwatching
      (by simp [Removes, CancelTask.WillRemove, CancelTask.Finishes, hpoint]) nofun nofun
      (by simp [hpoint]) nofun (by rw [hpoint]; rfl)

/-- A call asks for the row to be cancelled. -/
theorem request (h : CancelInv trace s) (htask : s.tasks[i]? = some task)
    (hpoint : task.point = .requesting) :
    CancelInv trace (s.goTo i task .confirming) ∧ ∀ after, s.applied .cancelRequested = some after →
      CancelInv (trace ++ [.cancelling]) ({ s with row := some after }.goTo i task .confirming) := by
  have halive : task.aborted = false := h.alive htask (by rw [hpoint]; rfl) (by simp [hpoint])
  have hmoved := h.go_on htask .confirming
    (.plain halive rfl rfl nofun) (by rw [hpoint]; rfl)
    (by simp [Removes, CancelTask.WillRemove, CancelTask.Finishes, hpoint]) nofun nofun
    (by simp [hpoint]) nofun (by rw [hpoint]; rfl)
  refine ⟨hmoved, fun after hafter => ?_⟩
  obtain ⟨before, hrow, happly⟩ := Option.bind_eq_some_iff.mp hafter
  obtain ⟨hopen, hcancelling⟩ := Row.apply_request happly
  refine hmoved.set_row hrow (.inr rfl) (fun _ => by simp) (fun _ => .inl hcancelling)
    (fun hmem _ => absurd (h.ending hmem before hrow) hopen) fun _ => ?_
  -- the call itself is to hang the watchdog
  exact ⟨i, _, (get_go_to htask).trans (if_pos rfl),
    .inr ⟨congrArg some hcancelling, .inr ⟨halive, .inl rfl⟩⟩⟩

/-- A call finds a watchdog or hangs one, and returns. -/
theorem hang_ended (h : CancelInv trace s) (htask : s.tasks[i]? = some task)
    (hpoint : task.point = .hanging) :
    (s.watchdog ≠ none → CancelInv (trace ++ [.ok]) (s.goTo i task .ended)) ∧
      CancelInv (trace ++ [.ok])
        (({ s with watchdog := some s.tasks.length }.spawn .sleeping).goTo i task .ended) := by
  have hmem : .cancelling ∈ trace := (h.each i task htask).saw (by rw [hpoint]; rfl)
  have hsaid := h.say_ok (.inr ⟨task, List.mem_of_getElem? htask, hpoint⟩) hmem
  have hwatching : task.point.watching = false := by rw [hpoint]; rfl
  have hno : ¬ task.Finishes := by simp [CancelTask.Finishes, hpoint]
  constructor
  · intro hsome
    obtain ⟨handle, hhandle⟩ := Option.ne_none_iff_exists'.mp hsome
    refine hsaid.go_to htask .ended .ended
      (fun heq => absurd heq (h.unwatched htask hwatching)) (fun _ hremoves => .inr ?_)
      nofun nofun (owes_same (by simp [hpoint]) nofun (by rw [hpoint]; rfl))
    obtain ⟨hstate, -⟩ := hremoves.resolve_left hno
    -- the watchdog that hangs already removes the row
    obtain ⟨found, hfound, halive, hfoundwatches⟩ := h.handle handle hhandle
    refine ⟨handle, found, hfound, ?_, .inr ⟨hstate, ?_⟩⟩
    · rintro rfl
      exact h.unwatched htask hwatching hhandle
    · rcases CancelPoint.watching_cases hfoundwatches with heq | heq | heq | heq
      · exact .inr ⟨halive, .inr (.inr (.inl heq))⟩
      · exact .inr ⟨halive, .inr (.inr (.inr heq))⟩
      · exact absurd hstate ((h.each handle found hfound).forgets heq)
      · refine .inl ?_
        simp only [CancelTask.Finishes, heq]
        exact halive
  · obtain ⟨hlt, -⟩ := List.getElem?_eq_some_iff.mp htask
    have hhung := hsaid.hang (List.mem_append_left _ hmem) (by simp)
    have hget : ∀ j : Nat, ({ s with watchdog := some s.tasks.length }.spawn .sleeping).tasks[j]? =
        if j = s.tasks.length then some { point := .sleeping, aborted := false }
        else s.tasks[j]? := fun j =>
      get_spawn (s := { s with watchdog := some s.tasks.length })
    have hstill : ({ s with watchdog := some s.tasks.length }.spawn .sleeping).tasks[i]? =
        some task := (hget i).trans ((if_neg (Nat.ne_of_lt hlt)).trans htask)
    refine hhung.go_to hstill .ended .ended
      (fun heq => absurd heq (hhung.unwatched hstill hwatching)) (fun _ hremoves => .inr ?_)
      nofun nofun (owes_same (by simp [hpoint]) nofun (by rw [hpoint]; rfl))
    obtain ⟨hstate, -⟩ := hremoves.resolve_left hno
    exact ⟨s.tasks.length, _, (hget _).trans (if_pos rfl), Nat.ne_of_gt hlt,
      .inr ⟨hstate, .inr ⟨rfl, .inr (.inr (.inl rfl))⟩⟩⟩

/-- A call that has looked at the row ends, asks for the row to be cancelled, or destroys it. -/
theorem go_call (h : CancelInv trace s) (htask : s.tasks[i]? = some task)
    (hpoint : task.point = .deciding ∨ task.point = .finding ∨ task.point = .checking)
    (hnew : point = .ended ∨ point = .checking ∨ point = .requesting ∨
      (point = .taking .destroy ∧ s.row ≠ none ∧ s.Unclaimed)) :
    CancelInv trace (s.goTo i task point) := by
  have hcall : task.point.watching = false ∧ task.point.hung = false ∧ ¬ s.Removes task ∧
      task.point ≠ .ended ∧ task.point ≠ .clearing ∧ task.point.reports = false := by
    rcases hpoint with hpoint | hpoint | hpoint
    all_goals
      simp [Removes, CancelTask.WillRemove, CancelTask.Finishes, hpoint, CancelPoint.watching,
        CancelPoint.hung, CancelPoint.reports]
  obtain ⟨hwatching, hhung, hno, hended, hclearing, hquiet⟩ := hcall
  have halive : task.aborted = false := h.alive htask hhung hended
  rcases hnew with rfl | rfl | rfl | ⟨rfl, hthere, hfree⟩
  · exact h.go_on htask .ended .ended hwatching hno nofun nofun hclearing nofun hquiet
  · exact h.go_on htask .checking (.plain halive rfl rfl nofun) hwatching hno nofun nofun
      hclearing nofun hquiet
  · exact h.go_on htask .requesting (.plain halive rfl rfl nofun) hwatching hno nofun nofun
      hclearing nofun hquiet
  · exact h.go_on htask (.taking .destroy) (.plain halive rfl rfl nofun) hwatching hno nofun
      (fun _ => ⟨hthere, hfree⟩) hclearing nofun hquiet

/-- The watchdog goes on to its next point. -/
theorem go_watchdog (h : CancelInv trace s) (htask : s.tasks[i]? = some task)
    (hpoint : task.point = .sleeping ∨ task.point = .woken)
    (hnew : point = .woken ∨ point = .taking .watchdog ∨
      (point = .forgetting ∧ s.stateOf ≠ some .cancelling)) :
    CancelInv trace (s.goTo i task point) := by
  have hkept := h.each i task htask
  have hold : task.point.saw = true ∧ task.point.hung = true ∧ task.point ≠ .clearing ∧
      task.point.reports = false ∧ ¬ task.Finishes := by
    rcases hpoint with hpoint | hpoint
    all_goals
      simp [CancelTask.Finishes, hpoint, CancelPoint.saw, CancelPoint.hung, CancelPoint.reports]
  obtain ⟨hsaw, hhung, hclearing, hquiet, hno⟩ := hold
  have hmem := hkept.saw hsaw
  have hok := hkept.hung hhung
  rcases hnew with rfl | rfl | ⟨rfl, hstate⟩
  · refine h.go_to htask .woken ⟨fun _ => .inl rfl, fun _ => hmem, fun _ => hok, nofun, nofun⟩
      (fun _ => rfl) (fun _ hremoves => .inl ?_) nofun nofun (owes_same hclearing nofun hquiet.symm)
    obtain ⟨hstate, hrest⟩ := hremoves.resolve_left hno
    exact .inr ⟨hstate, .inr ⟨(hrest.resolve_left hno).1, .inr (.inr (.inr rfl))⟩⟩
  · refine h.go_to htask (.taking .watchdog) ⟨fun _ => .inl rfl, fun _ => hmem, fun _ => hok,
      nofun, nofun⟩ (fun _ => rfl) (fun _ hremoves => .inl ?_) nofun nofun
      (owes_same hclearing nofun hquiet.symm)
    obtain ⟨-, hrest⟩ := hremoves.resolve_left hno
    exact .inl (hrest.resolve_left hno).1
  · exact h.go_to htask .forgetting ⟨fun _ => .inl rfl, fun _ => hmem, fun _ => hok,
      fun _ => hstate, nofun⟩ (fun _ => rfl)
      (fun _ hremoves => absurd (hremoves.resolve_left hno).1 hstate) nofun nofun
      (owes_same hclearing nofun hquiet.symm)

/-- A call looks whether the row has become `cancelling`. -/
theorem confirm (h : CancelInv trace s) (htask : s.tasks[i]? = some task)
    (hpoint : task.point = .confirming) :
    CancelInv trace (s.goTo i task
      (if s.stateOf = some .cancelling then .hanging else .ended)) := by
  have halive : task.aborted = false := h.alive htask (by rw [hpoint]; rfl) (by simp [hpoint])
  have hwatch := h.unwatched htask (by rw [hpoint]; rfl)
  have hno : ¬ task.Finishes := by simp [CancelTask.Finishes, hpoint]
  split
  · next hstate =>
    refine h.go_to htask .hanging ⟨fun htrue => ?_, fun _ => h.began hstate, nofun, nofun, nofun⟩
      (fun heq => absurd heq hwatch) (fun _ _ => .inl ?_) (fun _ => hstate) nofun
      (owes_same (by simp [hpoint]) nofun (by rw [hpoint]; rfl))
    · rw [halive] at htrue
      cases htrue
    · exact .inr ⟨hstate, .inr ⟨halive, .inr (.inl rfl)⟩⟩
  · next hstate =>
    exact h.go_to htask .ended .ended (fun heq => absurd heq hwatch)
      (fun _ hremoves => absurd (hremoves.resolve_left hno).1 hstate) nofun nofun
      (owes_same (by simp [hpoint]) nofun (by rw [hpoint]; rfl))

/-- A task ends whose removal is not needed any more, or left to another. -/
theorem go_ended (h : CancelInv trace s) (htask : s.tasks[i]? = some task)
    (hwatching : s.watchdog ≠ some i) (hclearing : task.point ≠ .clearing)
    (hquiet : task.point.reports = false) (hrelieved : s.Removes task → s.Relieved i) :
    CancelInv trace (s.goTo i task .ended) := by
  refine h.go_to htask .ended .ended (fun heq => absurd heq hwatching)
    (fun hdue hremoves => .inr ?_) nofun nofun (owes_same hclearing nofun hquiet.symm)
  rcases hrelieved hremoves with hnone | hother
  · rcases hdue with hstate | ⟨-, state, hstate, -⟩
    · rw [stateOf, hnone] at hstate
      cases hstate
    · rw [stateOf, hnone] at hstate
      cases hstate
  · exact hother

/-- A handler or a call that destroys the row is in front of it in `finalize_remove`. -/
theorem claim {emitted : List CancelEvent} (h : CancelInv trace s)
    (htask : s.tasks[i]? = some task)
    (hpoint : task.point = .removing .handler ∨ task.point = .removing .destroy)
    (hnext : s.advance i task = some (next, emitted)) : CancelInv (trace ++ emitted) next := by
  have hold : task.point.watching = false ∧ task.point ≠ .clearing ∧ task.point.reports = true ∧
      task.point.hung = false ∧ task.point ≠ .ended := by
    rcases hpoint with hpoint | hpoint
    all_goals
      simp [hpoint, CancelPoint.watching, CancelPoint.reports, CancelPoint.hung]
  obtain ⟨hwatching, hclearing, hreports, hhung, hended⟩ := hold
  have halive : task.aborted = false := h.alive htask hhung hended
  have hfree : ∀ (j : Nat) (other : CancelTask), s.tasks[j]? = some other → j ≠ i →
      other.point.reports = false := by
    intro j other hother hne
    by_contra hagain
    exact hne (h.single j i other task hother htask (eq_true_of_ne_false hagain) hreports)
  unfold CancelDesk.advance at hnext
  cases hrow : s.row with
  | none =>
    have howes : owesReport s.row task = true := by simp [owesReport, hrow, hreports]
    rcases hpoint with hpoint | hpoint
    · simp only [hpoint, hrow] at hnext
      obtain ⟨rfl, rfl⟩ := answer_inj hnext
      exact h.report htask howes hrow hwatching (.inl rfl)
    · simp only [hpoint, hrow] at hnext
      obtain ⟨rfl, rfl⟩ := answer_inj hnext
      have hdue : ¬ Due trace s := by
        rintro (hstate | ⟨-, state, hstate, -⟩)
        · rw [stateOf, hrow] at hstate
          cases hstate
        · rw [stateOf, hrow] at hstate
          cases hstate
      rw [List.append_nil]
      refine h.go_to htask .clearing (.plain halive rfl rfl nofun)
        (fun heq => absurd heq (h.unwatched htask hwatching)) (fun htrue => absurd htrue hdue)
        nofun nofun ?_
      rw [howes]
      rfl
  | some row =>
    have hthere : s.row ≠ none := by simp [hrow]
    rcases hpoint with hpoint | hpoint
    · simp only [hpoint, hrow] at hnext
      obtain ⟨rfl, rfl⟩ := answer_inj hnext
      exact h.remove_row htask hwatching hclearing hthere hfree (.inl ⟨rfl, rfl⟩)
    · simp only [hpoint, hrow] at hnext
      obtain ⟨rfl, rfl⟩ := answer_inj hnext
      exact h.remove_row htask hwatching hclearing hthere hfree (.inr ⟨rfl, rfl, halive⟩)

/-- The watchdog is in front of the row in `finalize_remove`. -/
theorem expire {emitted : List CancelEvent} (h : CancelInv trace s)
    (htask : s.tasks[i]? = some task) (hpoint : task.point = .removing .watchdog)
    (hfree : s.row ≠ none → s.Unclaimed)
    (hnext : s.advance i task = some (next, emitted)) : CancelInv (trace ++ emitted) next := by
  have hwatching : task.point.watching = false := by rw [hpoint]; rfl
  have hclearing : task.point ≠ .clearing := by simp [hpoint]
  unfold CancelDesk.advance at hnext
  cases hrow : s.row with
  | none =>
    simp only [hpoint, hrow] at hnext
    exact silent_answer hnext
      (h.go_ended htask (h.unwatched htask hwatching) hclearing (by rw [hpoint]; rfl)
        fun _ => .inl hrow)
  | some row =>
    simp only [hpoint, hrow] at hnext
    obtain ⟨rfl, rfl⟩ := answer_inj hnext
    have hthere : s.row ≠ none := by simp [hrow]
    exact h.remove_row htask hwatching hclearing hthere
      (fun j other hother _ => hfree hthere other (List.mem_of_getElem? hother)) (.inl ⟨rfl, rfl⟩)

/-- A task that was aborted has to wait, and is dropped. -/
theorem drop (h : CancelInv trace s) (htask : s.tasks[i]? = some task)
    (haborted : task.aborted = true)
    (horderly : task.aborted = true → task.point = .removing .watchdog → s.Relieved i) :
    CancelInv trace (s.goTo i task .ended) := by
  have hkept := h.each i task htask
  have hold : task.point ≠ .clearing ∧ task.point.reports = false := by
    rcases hkept.aborted haborted with hhung | hended
    · unfold CancelPoint.hung at hhung
      split at hhung
      case h_6 => cases hhung
      all_goals
        rename_i heq
        simp [heq, CancelPoint.reports]
    · simp [hended, CancelPoint.reports]
  refine h.go_ended htask (fun hhandle => ?_) hold.1 hold.2 fun hremoves => ?_
  · obtain ⟨found, hfound, halive, -⟩ := h.handle _ hhandle
    obtain rfl := Option.some.inj (htask.symm.trans hfound)
    rw [haborted] at halive
    cases halive
  · -- only a watchdog is aborted, and an aborted one removes the row past its handle only
    have hfinishes : task.Finishes := by
      rcases hremoves with hfinishes | ⟨-, hfinishes | ⟨halive, -⟩⟩
      · exact hfinishes
      · exact hfinishes
      · rw [haborted] at halive
        cases halive
    refine horderly haborted ?_
    unfold CancelTask.Finishes at hfinishes
    cases hpoint : task.point with
    | removing who =>
      rcases hkept.aborted haborted with hhung | hended
      · rw [hpoint] at hhung
        cases who with
        | watchdog => rfl
        | handler | destroy => cases hhung
      · rw [hpoint] at hended
        cases hended
    | taking who =>
      rw [hpoint] at hfinishes
      rw [haborted] at hfinishes
      cases hfinishes
    | _ =>
      rw [hpoint] at hfinishes
      cases hfinishes

/-- One step of a task that meets the guard. -/
theorem advance {emitted : List CancelEvent} (h : CancelInv trace s)
    (htask : s.tasks[i]? = some task) (horderly : Orderly trace s (.advance i))
    (hnext : s.advance i task = some (next, emitted)) : CancelInv (trace ++ emitted) next := by
  have hkept := h.each i task htask
  have hstep := hnext
  unfold CancelDesk.advance at hnext
  simp only [Orderly, htask] at horderly
  cases hpoint : task.point with simp only [hpoint] at hnext
  | peeking ev =>
    have halive : task.aborted = false := h.alive htask (by rw [hpoint]; rfl) (by simp [hpoint])
    refine silent_answer hnext
      (h.go_on htask (.applying ev (decide (s.stateOf = some .cancelling)))
      ⟨fun htrue => ?_, fun hsaw => ?_, nofun, nofun, ?_⟩ (by rw [hpoint]; rfl)
      (by simp [Removes, CancelTask.WillRemove, CancelTask.Finishes, hpoint]) nofun nofun
      (by simp [hpoint]) nofun (by rw [hpoint]; rfl))
    · rw [halive] at htrue
      cases htrue
    · exact h.began (of_decide_eq_true hsaw)
    · have hevent := hkept.event
      rw [hpoint] at hevent
      exact hevent
  | applying ev was =>
    simp only [hpoint] at hnext horderly
    cases hafter : s.applied ev with
    | none =>
      rw [hafter] at hnext
      exact silent_answer hnext (h.go_on htask .ended .ended (by rw [hpoint]; rfl)
        (by simp [Removes, CancelTask.WillRemove, CancelTask.Finishes, hpoint]) nofun nofun
        (by simp [hpoint]) nofun (by rw [hpoint]; rfl))
    | some after =>
      rw [hafter] at hnext
      have happlied := h.apply_event htask hpoint horderly hafter
      dsimp only at hnext
      split at hnext
      · next hfinal =>
        rw [if_pos hfinal] at happlied
        exact silent_answer hnext happlied
      · next hfinal =>
        rw [if_neg hfinal] at happlied
        exact silent_answer hnext happlied
  | deciding =>
    simp only [hpoint] at hnext horderly
    split at hnext
    · exact silent_answer hnext (h.go_call htask (.inl hpoint) (.inl rfl))
    · next state hstate =>
      have hthere : s.row ≠ none := by
        intro hnone
        rw [stateOf, hnone] at hstate
        cases hstate
      split at hnext
      · next hterminal =>
        exact silent_answer hnext (h.go_call htask (.inl hpoint)
          (.inr (.inr (.inr ⟨rfl, hthere, horderly ⟨state, hstate, hterminal⟩⟩))))
      · exact silent_answer hnext (h.go_call htask (.inl hpoint) (.inr (.inl rfl)))
  | finding =>
    simp only [hpoint] at hnext horderly
    split at hnext
    · exact silent_answer hnext (h.go_call htask (.inr (.inl hpoint)) (.inl rfl))
    · next row hrow =>
      have hthere : s.row ≠ none := by simp [hrow]
      exact silent_answer hnext (h.go_call htask (.inr (.inl hpoint))
        (.inr (.inr (.inr ⟨rfl, hthere, horderly hthere⟩))))
  | checking =>
    split at hnext
    · exact silent_answer hnext (h.go_call htask (.inr (.inr hpoint)) (.inl rfl))
    · split at hnext
      · exact silent_answer hnext (h.go_call htask (.inr (.inr hpoint)) (.inl rfl))
      · exact silent_answer hnext (h.go_call htask (.inr (.inr hpoint)) (.inr (.inr (.inl rfl))))
  | requesting =>
    cases hafter : s.applied .cancelRequested with
    | none =>
      rw [hafter] at hnext
      exact silent_answer hnext (h.request htask hpoint).1
    | some after =>
      rw [hafter] at hnext
      obtain ⟨rfl, rfl⟩ := answer_inj hnext
      exact (h.request htask hpoint).2 after hafter
  | confirming =>
    have hconfirmed := h.confirm htask hpoint
    split at hnext
    · next hstate =>
      rw [if_pos hstate] at hconfirmed
      exact silent_answer hnext hconfirmed
    · next hstate =>
      rw [if_neg hstate] at hconfirmed
      exact silent_answer hnext hconfirmed
  | hanging =>
    split at hnext
    · next handle hhandle =>
      obtain ⟨rfl, rfl⟩ := answer_inj hnext
      exact (h.hang_ended htask hpoint).1 (by simp [hhandle])
    · obtain ⟨rfl, rfl⟩ := answer_inj hnext
      exact (h.hang_ended htask hpoint).2
  | sleeping =>
    obtain ⟨-, hnext⟩ := of_unless hnext
    exact silent_answer hnext (h.go_watchdog htask (.inl hpoint) (.inl rfl))
  | woken =>
    split at hnext
    · exact silent_answer hnext (h.go_watchdog htask (.inr hpoint) (.inr (.inl rfl)))
    · next hstate =>
      exact silent_answer hnext (h.go_watchdog htask (.inr hpoint) (.inr (.inr ⟨rfl, hstate⟩)))
  | forgetting =>
    exact silent_answer hnext
      (h.unhang.go_ended htask (fun heq => by cases heq) (by simp [hpoint])
      (by rw [hpoint]; rfl) fun hremoves => by
        simp [Removes, CancelTask.WillRemove, CancelTask.Finishes, hpoint] at hremoves)
  | taking who =>
    obtain ⟨hmoved, haborted⟩ := h.take_handle htask hpoint
    split at hnext
    · next hnone =>
      have hsame : ({ s with watchdog := none } : CancelDesk) = s := by rw [← hnone]
      rw [hsame] at hmoved
      exact silent_answer hnext hmoved
    · next handle hhandle => exact silent_answer hnext (haborted handle hhandle)
  | removing who =>
    cases who with
    | handler => exact h.claim htask (.inl hpoint) hstep
    | destroy => exact h.claim htask (.inr hpoint) hstep
    | watchdog =>
      simp only [hpoint] at horderly
      exact h.expire htask hpoint horderly hstep
  | clearing =>
    obtain ⟨rfl, rfl⟩ := answer_inj hnext
    have howes : owesReport s.row task = true := by simp [owesReport, hpoint]
    have hpos : 0 < s.tasks.countP (owesReport s.row) :=
      List.countP_pos_iff.mpr ⟨task, List.mem_of_getElem? htask, howes⟩
    have hrow : s.row = none := by
      by_contra hthere
      have hrows := h.rows
      have hreports := h.reports
      rw [if_neg hthere] at hrows
      omega
    exact h.report htask howes hrow (by rw [hpoint]; rfl) (.inr rfl)
  | ended =>
    cases hnext

/-- What the desk keeps, it keeps with every step that meets the guard. -/
theorem step {input : CancelInput} {emitted : List CancelEvent} (h : CancelInv trace s)
    (horderly : Orderly trace s input)
    (hnext : CancelDesk.step s input = some (next, emitted)) :
    CancelInv (trace ++ emitted) next := by
  have hspawn : ∀ point : CancelPoint, point = .checking ∨ point = .deciding ∨
      point = .finding ∨ (∃ ev, point = .peeking ev ∧ ev ≠ .cancelRequested) →
      CancelInv (trace ++ []) (s.spawn point) := by
    intro point hpoint
    rw [List.append_nil]
    rcases hpoint with rfl | rfl | rfl | ⟨ev, rfl, hev⟩
    · exact h.spawn .checking (.plain rfl rfl rfl nofun) rfl nofun nofun
    · exact h.spawn .deciding (.plain rfl rfl rfl nofun) rfl nofun nofun
    · exact h.spawn .finding (.plain rfl rfl rfl nofun) rfl nofun nofun
    · exact h.spawn (.peeking ev)
        (.plain rfl rfl rfl fun heq => hev (Option.some.inj heq)) rfl nofun nofun
  unfold CancelDesk.step at hnext
  cases input with
  | event ev =>
    dsimp only at hnext
    obtain ⟨hev, hnext⟩ := of_unless hnext
    split at hnext
    · exact silent_answer hnext h
    · next after hafter =>
      exact silent_answer hnext
        (h.event hev hafter fun hstate hterminal => horderly ⟨hstate, after, hafter, hterminal⟩)
  | discard =>
    dsimp only at hnext
    split at hnext
    · exact silent_answer hnext h
    · next row hrow =>
      obtain ⟨rfl, rfl⟩ := answer_inj hnext
      have hthere : s.row ≠ none := by simp [hrow]
      exact h.discard hthere (horderly hthere)
  | handle ev =>
    dsimp only at hnext
    obtain ⟨hev, rfl, rfl⟩ := unless_answer hnext
    exact hspawn _ (.inr (.inr (.inr ⟨ev, rfl, hev⟩)))
  | cancel =>
    obtain ⟨rfl, rfl⟩ := answer_inj hnext
    exact hspawn _ (.inl rfl)
  | destroy =>
    obtain ⟨rfl, rfl⟩ := answer_inj hnext
    exact hspawn _ (.inr (.inl rfl))
  | destroyDisk =>
    obtain ⟨rfl, rfl⟩ := answer_inj hnext
    exact hspawn _ (.inr (.inr (.inl rfl)))
  | advance i =>
    dsimp only at hnext
    split at hnext
    · cases hnext
    · next task htask => exact h.advance htask horderly hnext
  | wait i =>
    dsimp only at hnext
    split at hnext
    · cases hnext
    · next task htask =>
      split at hnext
      · next haborted =>
        exact silent_answer hnext
          (h.drop htask haborted (by simpa only [Orderly, htask] using horderly))
      · exact silent_answer hnext h

/-- What the desk keeps at its start. -/
theorem start {row : Row} (hrow : row.state ≠ .cancelling) :
    CancelInv [] (CancelDesk.start row) where
  rows := rfl
  reports := Nat.le_refl 0
  told _ hnone := by cases hnone
  handle _ hhandle := by cases hhandle
  each j task htask := by cases htask
  began hstate := absurd (Option.some.inj hstate) hrow
  ending hmem := by cases hmem
  answered hmem := by cases hmem
  due hdue := by
    rcases hdue with hstate | ⟨hok | ⟨task, htask, -⟩, -⟩
    · exact absurd (Option.some.inj hstate) hrow
    · cases hok
    · cases htask
  single j k one two hone := by cases hone

/-- A run that meets the guard keeps what the desk keeps. -/
theorem run {row : Row} (hrow : row.state ≠ .cancelling) {inputs : List CancelInput}
    (h : Exec CancelDesk.step Orderly (.start row) inputs trace s) : CancelInv trace s := by
  induction h with
  | start => exact .start hrow
  | step _ horderly hnext ih => exact ih.step horderly hnext

/-- What the desk keeps makes the arbitration hold. -/
theorem settled (h : CancelInv trace s) : Settled trace s := by
  have hrows := h.rows
  have hreports := h.reports
  refine ⟨fun hstate => ?_, ⟨by omega, ?_⟩, fun hquiet => ?_⟩
  · obtain ⟨j, task, htask, hremoves⟩ := h.due (.inl hstate)
    exact ⟨task, List.mem_of_getElem? htask, hremoves.elim .inl And.right⟩
  · rw [hrows]
    split
    · exact Nat.le_refl 1
    · exact Nat.zero_le 1
  · have hnobody : ¬ Due trace s := by
      intro hdue
      obtain ⟨j, task, htask, hremoves⟩ := h.due hdue
      have hpoint := hquiet task (List.mem_of_getElem? htask)
      simp [Removes, CancelTask.WillRemove, CancelTask.Finishes, hpoint] at hremoves
    refine ⟨fun hstate => hnobody (.inl hstate), fun hok => ?_⟩
    have hgone : s.row = none := by
      by_contra hthere
      obtain ⟨row, hrow⟩ := Option.ne_none_iff_exists'.mp hthere
      have hstate : s.stateOf = some row.state := by
        rw [stateOf, hrow]
        rfl
      rcases h.ending ((h.answered hok).resolve_right hthere) row hrow with heq | hterminal
      · exact hnobody (.inl (hstate.trans (congrArg some heq)))
      · exact hnobody (.inr ⟨.inl hok, row.state, hstate, hterminal⟩)
    rw [if_pos hgone] at hrows
    have htold := h.told (.inl hok) hgone
    have howed : s.tasks.countP (owesReport s.row) = 0 := by
      refine List.countP_eq_zero.mpr fun task htask howes => ?_
      simp [owesReport, hquiet task htask, CancelPoint.reports] at howes
    omega

end CancelInv

end CancelDesk

end LocalTrans.Ffi
