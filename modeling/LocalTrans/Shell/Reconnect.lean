import LocalTrans.Foundation.Execution
import LocalTrans.Foundation.Places
import Mathlib.Logic.Function.Basic

/-!
# The automatic reconnect

The pump of the session events keeps the set of connected devices. When a session ends it calls
`schedule`, which starts a loop for a device that is remembered, trusted and not connected, unless
one is registered already. A loop that finds no reason to go on leaves, and takes itself off the
registry with a lock of its own. `ReconnectDesk` is what the pump, the calls and the loops share,
and a step goes from one lock to the next. A loop that has made up its mind to leave is still
registered, so a call that looks just then starts none: `reconnect_coverage` is the result for the
runs in which that does not happen.
-/

namespace LocalTrans.Desktop

open Foundation

/-- An event of the session manager that waits for the pump. -/
inductive SessionNote (Fp : Type) where
  | up (fp : Fp)
  | down (fp : Fp)
  | broken (fp : Fp)
deriving DecidableEq

/-- The lock a call of `schedule` asks for next. -/
inductive ScheduleAt where
  | memory
  | trust
  | connected
  | registry
deriving DecidableEq

/-- The lock the pump asks for next: it handles one event at a time. -/
inductive PumpAt (Fp : Type) where
  | idle
  | raising (fp : Fp)
  | lowering (fp : Fp)
  | scheduling (fp : Fp) (point : ScheduleAt)
  | breaking (fp : Fp)
  | forgetting (fp : Fp)
deriving DecidableEq

/-- Where `reconnect_loop` waits. A loop that leaves has broken out and not yet taken itself off the
registry. -/
inductive LoopAt where
  | connected
  | trust
  | memory
  | sleeping
  | woken
  | address
  | connecting
  | leaving
  | gone
deriving DecidableEq

/-- A reconnect loop with its local variables. -/
structure ReconnectTask (Fp : Type) where
  fp : Fp
  point : LoopAt
  failures : Nat
  gaveUp : Bool
  peerAbsent : Bool
deriving DecidableEq

/-- A loop at its start. -/
def ReconnectTask.begin {Fp : Type} (fp : Fp) : ReconnectTask Fp where
  fp := fp
  point := .connected
  failures := 0
  gaveUp := false
  peerAbsent := true

/-- What is seen of a loop: it tries to connect, it gives up, it has connected. -/
inductive ReconnectEvent (Fp : Type) where
  | attempt (fp : Fp)
  | gaveUp (fp : Fp)
  | reconnected (fp : Fp)
deriving DecidableEq

/-- What the pump, the calls of `schedule` and the loops share. `lastDown` is not in the program: it
says of which devices the pump has handled a `SessionDown` last. -/
structure ReconnectDesk (Fp : Type) where
  connected : Fp → Bool
  trusted : Fp → Bool
  remembered : Fp → Bool
  registry : Fp → Option Nat
  tasks : List (ReconnectTask Fp)
  calls : List (Fp × Option ScheduleAt)
  notes : List (SessionNote Fp)
  pump : PumpAt Fp
  lastDown : Fp → Bool

/-- What happens. A session comes up or goes down; a device is paired; a device breaks the trust, or
the user removes it, and with it the memory; a command that connected marks the device as connected
and remembers it; the pump, a call of `schedule` or a loop gets the lock it waits for. The answer is
whether the device is found, and whether the attempt succeeds. -/
inductive ReconnectInput (Fp : Type) where
  | sessionUp (fp : Fp)
  | sessionDown (fp : Fp)
  | paired (fp : Fp)
  | trustBroken (fp : Fp)
  | untrusts (fp : Fp)
  | forgets (fp : Fp)
  | connects (fp : Fp)
  | remembers (fp : Fp)
  | pump
  | schedules (fp : Fp)
  | call (i : Nat)
  | turn (i : Nat) (answer : Bool)

/-- `give_up`. -/
def giveUp (failures : Nat) : Bool := decide (5 ≤ failures)

namespace ReconnectDesk

variable {Fp : Type} [DecidableEq Fp]

/-- A new loop is started and registered. -/
def register (s : ReconnectDesk Fp) (fp : Fp) : ReconnectDesk Fp :=
  { s with
    registry := Function.update s.registry fp (some s.tasks.length)
    tasks := s.tasks ++ [.begin fp] }

/-- `schedule`, from one lock to the next. -/
def schedule (s : ReconnectDesk Fp) (fp : Fp) : ScheduleAt → ReconnectDesk Fp × Option ScheduleAt
  | .memory => (s, if s.remembered fp then some .trust else none)
  | .trust => (s, if s.trusted fp then some .connected else none)
  | .connected => (s, if s.connected fp then none else some .registry)
  | .registry =>
    match s.registry fp with
    | some _ => (s, none)
    | none => (s.register fp, none)

/-- The pump takes an event, or goes on with the one it handles. -/
def pumpStep (s : ReconnectDesk Fp) : Option (ReconnectDesk Fp) :=
  match s.pump with
  | .idle =>
    match s.notes with
    | [] => none
    | .up fp :: rest => some { s with notes := rest, pump := .raising fp }
    | .down fp :: rest => some { s with notes := rest, pump := .lowering fp }
    | .broken fp :: rest => some { s with notes := rest, pump := .breaking fp }
  | .raising fp =>
    some { s with
      connected := Function.update s.connected fp true
      lastDown := Function.update s.lastDown fp false
      pump := .idle }
  | .lowering fp =>
    some { s with
      connected := Function.update s.connected fp false
      pump := .scheduling fp .memory }
  | .scheduling fp point =>
    match s.schedule fp point with
    | (next, some point) => some { next with pump := .scheduling fp point }
    | (next, none) =>
      some { next with pump := .idle, lastDown := Function.update next.lastDown fp true }
  | .breaking fp =>
    some { s with connected := Function.update s.connected fp false, pump := .forgetting fp }
  | .forgetting fp =>
    some { s with remembered := Function.update s.remembered fp false, pump := .idle }

/-- A loop goes on with new local variables. -/
def setTask (s : ReconnectDesk Fp) (i : Nat) (task : ReconnectTask Fp) : ReconnectDesk Fp :=
  { s with tasks := s.tasks.set i task }

/-- `reconnect_loop`, from one lock to the next. -/
def turn (s : ReconnectDesk Fp) (i : Nat) (task : ReconnectTask Fp) (answer : Bool) :
    Option (ReconnectDesk Fp × List (ReconnectEvent Fp)) :=
  match task.point with
  | .connected =>
    some (s.setTask i { task with
      point := if s.connected task.fp then .leaving else .trust }, [])
  | .trust =>
    some (s.setTask i { task with point := if s.trusted task.fp then .memory else .leaving }, [])
  | .memory =>
    if s.remembered task.fp then
      if giveUp task.failures && !task.gaveUp then
        some (s.setTask i { task with point := .sleeping, gaveUp := true }, [.gaveUp task.fp])
      else some (s.setTask i { task with point := .sleeping }, [])
    else some (s.setTask i { task with point := .leaving }, [])
  | .sleeping => some (s.setTask i { task with point := .woken }, [])
  | .woken =>
    some (s.setTask i { task with
      point := if s.connected task.fp then .leaving else .address }, [])
  | .address =>
    let rearm := task.gaveUp && answer && task.peerAbsent
    if !answer then some (s.setTask i { task with point := .connected, peerAbsent := true }, [])
    else if task.gaveUp && !rearm then
      some (s.setTask i { task with point := .connected, peerAbsent := false }, [])
    else if rearm then
      some (s.setTask i { task with
        point := .connecting, failures := 0, gaveUp := false, peerAbsent := false },
        [.attempt task.fp])
    else
      some (s.setTask i { task with point := .connecting, peerAbsent := false },
        [.attempt task.fp])
  | .connecting =>
    if answer then
      -- the session manager reports the session of a trusted device before it returns
      some ({ s with
        notes := if s.trusted task.fp then s.notes ++ [SessionNote.up task.fp] else s.notes
      }.setTask i { task with point := .leaving }, [.reconnected task.fp])
    else
      some (s.setTask i { task with point := .connected, failures := task.failures + 1 }, [])
  | .leaving =>
    some ({ s with registry := Function.update s.registry task.fp none }.setTask i
      { task with point := .gone }, [])
  | .gone => none

/-- One step. -/
def step : Machine (ReconnectDesk Fp) (ReconnectInput Fp) (ReconnectEvent Fp)
  | s, .sessionUp fp => some ({ s with notes := s.notes ++ [.up fp] }, [])
  | s, .sessionDown fp => some ({ s with notes := s.notes ++ [.down fp] }, [])
  | s, .paired fp =>
    some ({ s with
      trusted := Function.update s.trusted fp true
      notes := s.notes ++ [.up fp] }, [])
  | s, .trustBroken fp =>
    some ({ s with
      trusted := Function.update s.trusted fp false
      notes := s.notes ++ [.broken fp] }, [])
  | s, .untrusts fp => some ({ s with trusted := Function.update s.trusted fp false }, [])
  | s, .forgets fp => some ({ s with remembered := Function.update s.remembered fp false }, [])
  | s, .connects fp => some ({ s with connected := Function.update s.connected fp true }, [])
  | s, .remembers fp => some ({ s with remembered := Function.update s.remembered fp true }, [])
  | s, .pump => s.pumpStep.map fun next => (next, [])
  | s, .schedules fp => some ({ s with calls := s.calls ++ [(fp, some .memory)] }, [])
  | s, .call i =>
    match s.calls[i]? with
    | some (fp, some point) =>
      let (next, rest) := s.schedule fp point
      some ({ next with calls := next.calls.set i (fp, rest) }, [])
    | _ => none
  | s, .turn i answer =>
    match s.tasks[i]? with
    | none => none
    | some task => s.turn i task answer

/-- The program starts: nothing is connected, and the trust and the memory are read from disk. -/
def start (trusted remembered : Fp → Bool) : ReconnectDesk Fp where
  connected _ := false
  trusted := trusted
  remembered := remembered
  registry _ := none
  tasks := []
  calls := []
  notes := []
  pump := .idle
  lastDown _ := false

end ReconnectDesk

/-- The loop is under way and has not broken out. -/
def ReconnectTask.Runs {Fp : Type} (task : ReconnectTask Fp) : Prop :=
  task.point ≠ .leaving ∧ task.point ≠ .gone
deriving Decidable

theorem ReconnectTask.begin_runs {Fp : Type} (fp : Fp) : (ReconnectTask.begin fp).Runs :=
  ⟨LoopAt.noConfusion, LoopAt.noConfusion⟩

namespace ReconnectDesk

variable {Fp : Type}

/-- The loop that is registered for the device. -/
def registered (s : ReconnectDesk Fp) (fp : Fp) : Option (ReconnectTask Fp) :=
  (s.registry fp).bind fun i => s.tasks[i]?

/-- A loop for the device is registered and under way. -/
def Running (s : ReconnectDesk Fp) (fp : Fp) : Prop :=
  ∃ task, s.registered fp = some task ∧ task.fp = fp ∧ task.Runs

/-- The pump handles the start or the end of a session of the device. -/
def Serves (s : ReconnectDesk Fp) (fp : Fp) : Prop :=
  s.pump = .raising fp ∨ s.pump = .lowering fp ∨ ∃ point, s.pump = .scheduling fp point

/-- The start or the end of a session of the device waits for the pump. -/
def Noted (s : ReconnectDesk Fp) (fp : Fp) : Prop := .up fp ∈ s.notes ∨ .down fp ∈ s.notes

/-- The last the pump has heard of the device is the end of a session, and it has handled that. -/
def Settled (s : ReconnectDesk Fp) (fp : Fp) : Prop :=
  s.lastDown fp = true ∧ ¬ s.Serves fp ∧ ¬ s.Noted fp

/-- Every remembered and trusted device that is not connected after its last session has a loop that
is registered and runs, and no device has two. -/
structure Covered (s : ReconnectDesk Fp) : Prop where
  running : ∀ fp, s.Settled fp → s.remembered fp = true → s.trusted fp = true →
    s.connected fp = false → s.Running fp
  unique : ∀ (i j : Nat) (task other : ReconnectTask Fp), s.tasks[i]? = some task →
    s.tasks[j]? = some other → task.point ≠ .gone → other.point ≠ .gone → task.fp = other.fp → i = j

/-- What a run keeps to. The pump does not look at the registry between the moment at which a loop
breaks out and the one at which it takes itself off, unless the device needs no loop or another
event of it waits. And no device is remembered that was disconnected before and has no loop. -/
def NoneLost : Guard (ReconnectDesk Fp) (ReconnectInput Fp) (ReconnectEvent Fp)
  | _, s, .pump =>
    ∀ fp, s.pump = .scheduling fp .registry → s.registry fp = none ∨ s.Running fp ∨
      s.connected fp = true ∨ s.trusted fp = false ∨ s.remembered fp = false ∨ s.Noted fp
  | _, s, .remembers fp =>
    s.Settled fp → s.trusted fp = true → s.connected fp = false →
      s.remembered fp = true ∨ s.Running fp
  | _, _, _ => True

variable {s next : ReconnectDesk Fp} {i j : Nat} {fp : Fp} {task other : ReconnectTask Fp}

/-- Why a device has no need of a further loop: its last session has not ended, it is connected, not
trusted or not remembered, or a loop runs, or the pump is about to look after it. -/
inductive Cover (s : ReconnectDesk Fp) (fp : Fp) : Prop where
  | raised : s.lastDown fp = false → Cover s fp
  | connected : s.connected fp = true → Cover s fp
  | untrusted : s.trusted fp = false → Cover s fp
  | forgotten : s.remembered fp = false → Cover s fp
  | running : s.Running fp → Cover s fp
  | served : s.Serves fp → Cover s fp
  | noted : s.Noted fp → Cover s fp

/-- A reason stays one where the sets agree for the device. -/
theorem Cover.keep (h : s.Cover fp)
    (hsets : next.lastDown fp = s.lastDown fp ∧ next.connected fp = s.connected fp ∧
      next.trusted fp = s.trusted fp ∧ next.remembered fp = s.remembered fp)
    (hrunning : s.Running fp → next.Cover fp) (hserved : s.Serves fp → next.Cover fp)
    (hnoted : s.Noted fp → next.Cover fp) : next.Cover fp := by
  obtain ⟨hlast, hconnected, htrusted, hremembered⟩ := hsets
  cases h with
  | raised h => exact .raised (hlast.trans h)
  | connected h => exact .connected (hconnected.trans h)
  | untrusted h => exact .untrusted (htrusted.trans h)
  | forgotten h => exact .forgotten (hremembered.trans h)
  | running h => exact hrunning h
  | served h => exact hserved h
  | noted h => exact hnoted h

/-- What the desk keeps. A device whose break of the trust waits for the pump is not trusted, unless
it was paired again since. -/
structure ReconnectInv (s : ReconnectDesk Fp) : Prop where
  live : ∀ (i : Nat) (task : ReconnectTask Fp), s.tasks[i]? = some task → task.point ≠ .gone →
    s.registry task.fp = some i
  listed : ∀ fp i, s.registry fp = some i → ∃ task, s.tasks[i]? = some task ∧ task.fp = fp ∧
    task.point ≠ .gone
  cover : ∀ fp, s.Cover fp
  broken : ∀ fp before after, s.notes = before ++ .broken fp :: after →
    s.trusted fp = false ∨ .up fp ∈ after
  breaking : ∀ fp, s.pump = .breaking fp → s.trusted fp = false ∨ .up fp ∈ s.notes

/-- The loops after one of them went on. -/
theorem get_set_task (htask : s.tasks[i]? = some task) :
    (s.setTask i other).tasks[j]? = if j = i then some other else s.tasks[j]? :=
  get_set htask

namespace ReconnectInv

/-- A loop that is under way is the one that is registered. -/
theorem running (h : ReconnectInv s) (htask : s.tasks[i]? = some task) (hruns : task.Runs) :
    s.Running task.fp := by
  refine ⟨task, ?_, rfl, hruns⟩
  unfold registered
  rw [h.live i task htask hruns.2]
  exact htask

/-- Whether a loop runs, seen from the list of loops. -/
theorem running_iff (h : ReconnectInv s) :
    s.Running fp ↔ ∃ (i : Nat) (task : ReconnectTask Fp), s.tasks[i]? = some task ∧ task.fp = fp ∧
      task.Runs := by
  constructor
  · rintro ⟨task, hregistered, hfp, hruns⟩
    obtain ⟨i, -, htask⟩ := Option.bind_eq_some_iff.mp hregistered
    exact ⟨i, task, htask, hfp, hruns⟩
  · rintro ⟨i, task, htask, rfl, hruns⟩
    exact h.running htask hruns

/-- What the desk keeps, without a word about the loops: the shared sets and the events change, and
the loops and the registry stay. -/
theorem same_loops (h : ReconnectInv s) (htasks : next.tasks = s.tasks)
    (hregistry : next.registry = s.registry)
    (hcover : ∀ fp, s.Cover fp → ¬ next.Running fp → next.Cover fp)
    (hbroken : ∀ fp before after, next.notes = before ++ .broken fp :: after →
      next.trusted fp = false ∨ .up fp ∈ after)
    (hbreaking : ∀ fp, next.pump = .breaking fp → next.trusted fp = false ∨ .up fp ∈ next.notes) :
    ReconnectInv next where
  live i task htask := by
    rw [htasks] at htask
    rw [hregistry]
    exact h.live i task htask
  listed fp i hi := by
    rw [hregistry] at hi
    rw [htasks]
    exact h.listed fp i hi
  cover fp := by
    by_cases hrunning : next.Running fp
    · exact .running hrunning
    · exact hcover fp (h.cover fp) hrunning
  broken := hbroken
  breaking := hbreaking

/-- A loop goes on, and does not take itself off. Where it breaks out, its device needs none. -/
theorem set_task (h : ReconnectInv s) (htask : s.tasks[i]? = some task) (hfp : other.fp = task.fp)
    (hbefore : task.point ≠ .gone) (hafter : other.point ≠ .gone)
    (hleaves : other.point = .leaving → (s.setTask i other).Cover task.fp) :
    ReconnectInv (s.setTask i other) := by
  have hlive : ∀ (j : Nat) (found : ReconnectTask Fp),
      (s.setTask i other).tasks[j]? = some found → found.point ≠ .gone →
      s.registry found.fp = some j := by
    intro j found hfound hpoint
    rw [get_set_task htask] at hfound
    split at hfound
    · next hj =>
      obtain rfl := Option.some.inj hfound
      rw [hfp, hj]
      exact h.live i task htask hbefore
    · exact h.live j found hfound hpoint
  refine ⟨hlive, ?_, ?_, h.broken, h.breaking⟩
  · intro fp j hj
    obtain ⟨found, hfound, rfl, hpoint⟩ := h.listed fp j hj
    by_cases heq : j = i
    · subst heq
      obtain rfl := Option.some.inj (htask.symm.trans hfound)
      exact ⟨other, by rw [get_set_task htask, if_pos rfl], hfp, hafter⟩
    · exact ⟨found, by rw [get_set_task htask, if_neg heq]; exact hfound, rfl, hpoint⟩
  · intro fp
    refine (h.cover fp).keep ⟨rfl, rfl, rfl, rfl⟩ (fun hrunning => ?_)
      (fun hserved => .served hserved) (fun hnoted => .noted hnoted)
    obtain ⟨j, found, hfound, rfl, hruns⟩ := h.running_iff.mp hrunning
    by_cases heq : j = i
    · subst heq
      obtain rfl := Option.some.inj (htask.symm.trans hfound)
      by_cases hpoint : other.point = .leaving
      · exact hleaves hpoint
      · refine .running ⟨other, ?_, hfp, hpoint, hafter⟩
        show (s.registry task.fp).bind _ = some other
        rw [h.live j task htask hbefore]
        exact (get_set_task htask).trans (if_pos rfl)
    · refine .running ⟨found, ?_, rfl, hruns⟩
      show (s.registry found.fp).bind _ = some found
      rw [h.live j found hfound hruns.2]
      exact (get_set_task htask).trans ((if_neg heq).trans hfound)

/-- A new event waits. -/
theorem note (h : ReconnectInv s) (note : SessionNote Fp)
    (hnote : ∀ fp, note = .broken fp → s.trusted fp = false) :
    ReconnectInv { s with notes := s.notes ++ [note] } := by
  refine h.same_loops rfl rfl (fun fp hcover hidle => ?_) ?_ ?_
  · refine hcover.keep ⟨rfl, rfl, rfl, rfl⟩ (fun hrunning => absurd hrunning hidle)
      (fun hserved => .served hserved)
      (fun hnoted => .noted ?_)
    exact hnoted.imp (List.mem_append_left _) (List.mem_append_left _)
  · intro fp before after hsplit
    rcases List.append_eq_append_iff.mp hsplit with ⟨between, -, htail⟩ | ⟨between, hnotes, htail⟩
    · cases between with
      | nil => exact .inl (hnote fp (List.cons.inj htail).1)
      | cons first rest => simp at htail
    · cases between with
      | nil =>
        have hhead : note = .broken fp := (List.cons.inj htail).1.symm
        exact .inl (hnote fp hhead)
      | cons first rest =>
        obtain ⟨rfl, rfl⟩ := List.cons.inj htail
        exact (h.broken fp before rest hnotes).imp_right (List.mem_append_left _)
  · intro fp hpump
    exact (h.breaking fp hpump).imp_right (List.mem_append_left _)

/-- The pump takes an event. -/
theorem take_note (h : ReconnectInv s) {note : SessionNote Fp} {rest : List (SessionNote Fp)}
    (hnotes : s.notes = note :: rest) (hidle : s.pump = .idle) {point : PumpAt Fp}
    (hserves : ∀ fp, note = .up fp ∨ note = .down fp →
      ({ s with notes := rest, pump := point } : ReconnectDesk Fp).Serves fp)
    (hbreaking : ∀ fp, point = .breaking fp → note = .broken fp) :
    ReconnectInv { s with notes := rest, pump := point } := by
  refine h.same_loops rfl rfl (fun fp hcover hnone => ?_) ?_ ?_
  · refine hcover.keep ⟨rfl, rfl, rfl, rfl⟩ (fun hrunning => absurd hrunning hnone)
      (fun hserved => ?_) (fun hnoted => ?_)
    · rcases hserved with heq | heq | ⟨point, heq⟩
      all_goals
        rw [hidle] at heq
        cases heq
    · rcases hnoted with hup | hdown
      · rw [hnotes] at hup
        rcases List.mem_cons.mp hup with heq | hold
        · exact .served (hserves fp (.inl heq.symm))
        · exact .noted (.inl hold)
      · rw [hnotes] at hdown
        rcases List.mem_cons.mp hdown with heq | hold
        · exact .served (hserves fp (.inr heq.symm))
        · exact .noted (.inr hold)
  · intro fp before after hsplit
    have hrest : rest = before ++ .broken fp :: after := hsplit
    exact h.broken fp (note :: before) after (by rw [hnotes, hrest]; rfl)
  · intro fp hpoint
    exact h.broken fp [] rest (by rw [hnotes, hbreaking fp hpoint]; rfl)

end ReconnectInv

section Registry

variable [DecidableEq Fp]

/-- The loops after a new one was registered. -/
theorem get_register : (s.register fp).tasks[j]? =
    if j = s.tasks.length then some (.begin fp) else s.tasks[j]? :=
  get_append

namespace ReconnectInv

/-- A loop is started for a device that has none. -/
theorem register (h : ReconnectInv s) (hfree : s.registry fp = none) :
    ReconnectInv (s.register fp) := by
  have hregistry : ∀ id, (s.register fp).registry id =
      if id = fp then some s.tasks.length else s.registry id :=
    fun id => Function.update_apply s.registry fp (some s.tasks.length) id
  have hrunning : (s.register fp).Running fp := by
    refine ⟨.begin fp, ?_, rfl, ReconnectTask.begin_runs fp⟩
    unfold registered
    rw [hregistry, if_pos rfl]
    exact get_register.trans (if_pos rfl)
  refine ⟨?_, ?_, ?_, h.broken, h.breaking⟩
  · intro i task htask hpoint
    rw [hregistry]
    rw [get_register] at htask
    split at htask
    · next hi =>
      obtain rfl := Option.some.inj htask
      exact (if_pos rfl).trans (congrArg some hi.symm)
    · have hold := h.live i task htask hpoint
      have hne : task.fp ≠ fp := by
        intro heq
        rw [heq, hfree] at hold
        cases hold
      rw [if_neg hne]
      exact hold
  · intro id i hi
    rw [hregistry] at hi
    split at hi
    · next hid =>
      obtain rfl := Option.some.inj hi
      exact ⟨.begin fp, get_register.trans (if_pos rfl), hid.symm,
        (ReconnectTask.begin_runs fp).2⟩
    · obtain ⟨task, htask, hrest⟩ := h.listed id i hi
      have hlt := (List.getElem?_eq_some_iff.mp htask).1
      exact ⟨task, by rw [get_register, if_neg (by omega)]; exact htask, hrest⟩
  · intro id
    by_cases hid : id = fp
    · rw [hid]
      exact .running hrunning
    · refine (h.cover id).keep ⟨rfl, rfl, rfl, rfl⟩
        (fun hrunning => ?_) (fun hserved => .served hserved)
        (fun hnoted => .noted hnoted)
      obtain ⟨task, hregistered, hfp, hruns⟩ := hrunning
      obtain ⟨i, hi, htask⟩ := Option.bind_eq_some_iff.mp hregistered
      have hlt := (List.getElem?_eq_some_iff.mp htask).1
      refine .running ⟨task, ?_, hfp, hruns⟩
      unfold registered
      rw [hregistry, if_neg hid, hi]
      exact get_register.trans ((if_neg (Nat.ne_of_lt hlt)).trans htask)

/-- A loop that has broken out takes itself off the registry. -/
theorem leave (h : ReconnectInv s) (htask : s.tasks[i]? = some task)
    (hpoint : task.point = .leaving) :
    ReconnectInv ({ s with registry := Function.update s.registry task.fp none }.setTask i
      { task with point := .gone }) := by
  have hmine : s.registry task.fp = some i := h.live i task htask (by simp [hpoint])
  have htasks : ∀ j, ({ s with registry := Function.update s.registry task.fp none }.setTask i
      { task with point := .gone }).tasks[j]? =
        if j = i then some { task with point := .gone } else s.tasks[j]? :=
    fun j => get_set_task (s := { s with
      registry := Function.update s.registry task.fp none }) htask
  -- no other loop is for the same device
  have hother : ∀ (j : Nat) (found : ReconnectTask Fp), s.tasks[j]? = some found →
      found.point ≠ .gone → j ≠ i → found.fp ≠ task.fp := by
    intro j found hfound hgone hne heq
    have hold := h.live j found hfound hgone
    rw [heq, hmine] at hold
    exact hne (Option.some.inj hold).symm
  have hregistry : ∀ id, Function.update s.registry task.fp none id =
      if id = task.fp then none else s.registry id :=
    fun id => Function.update_apply s.registry task.fp none id
  refine ⟨?_, ?_, ?_, h.broken, h.breaking⟩
  · intro j found hfound hgone
    rw [htasks] at hfound
    split at hfound
    · obtain rfl := Option.some.inj hfound
      exact absurd rfl hgone
    · next hne =>
      refine (hregistry found.fp).trans ?_
      rw [if_neg (hother j found hfound hgone hne)]
      exact h.live j found hfound hgone
  · intro id j hj
    have hj := (hregistry id).symm.trans hj
    split at hj
    · cases hj
    · next hid =>
      obtain ⟨found, hfound, hfp, hgone⟩ := h.listed id j hj
      have hne : j ≠ i := by
        rintro rfl
        obtain rfl := Option.some.inj (htask.symm.trans hfound)
        exact hid hfp.symm
      exact ⟨found, by rw [htasks, if_neg hne]; exact hfound, hfp, hgone⟩
  · intro id
    refine (h.cover id).keep ⟨rfl, rfl, rfl, rfl⟩ (fun hrunning => ?_)
      (fun hserved => .served hserved) (fun hnoted => .noted hnoted)
    obtain ⟨j, found, hfound, rfl, hruns⟩ := h.running_iff.mp hrunning
    have hne : j ≠ i := by
      rintro rfl
      obtain rfl := Option.some.inj (htask.symm.trans hfound)
      exact hruns.1 hpoint
    refine .running ⟨found, ?_, rfl, hruns⟩
    show (Function.update s.registry task.fp none found.fp).bind _ = some found
    rw [hregistry, if_neg (hother j found hfound hruns.2 hne), h.live j found hfound hruns.2]
    exact (htasks j).trans ((if_neg hne).trans hfound)

/-- A call of `schedule` keeps the desk; it ends for a reason, unless it finds a loop that
leaves. -/
theorem schedule (h : ReconnectInv s) (fp : Fp) (point : ScheduleAt) :
    ReconnectInv (s.schedule fp point).1 ∧
      ((s.schedule fp point).2 = none →
        (point = .registry ∧ s.registry fp ≠ none ∧ (s.schedule fp point).1 = s) ∨
          (s.schedule fp point).1.remembered fp = false ∨
          (s.schedule fp point).1.trusted fp = false ∨
          (s.schedule fp point).1.connected fp = true ∨
          (s.schedule fp point).1.Running fp) := by
  cases point with
  | memory =>
    refine ⟨h, fun hends => .inr (.inl ?_)⟩
    by_contra hyes
    have htrue : s.remembered fp = true := eq_true_of_ne_false hyes
    simp [ReconnectDesk.schedule, htrue] at hends
  | trust =>
    refine ⟨h, fun hends => .inr (.inr (.inl ?_))⟩
    by_contra hyes
    have htrue : s.trusted fp = true := eq_true_of_ne_false hyes
    simp [ReconnectDesk.schedule, htrue] at hends
  | connected =>
    refine ⟨h, fun hends => .inr (.inr (.inr (.inl ?_)))⟩
    by_contra hno
    have hfalse : s.connected fp = false := eq_false_of_ne_true hno
    simp [ReconnectDesk.schedule, hfalse] at hends
  | registry =>
    unfold ReconnectDesk.schedule
    cases hregistry : s.registry fp with
    | some i => exact ⟨h, fun _ => .inl ⟨rfl, by simp, rfl⟩⟩
    | none =>
      have hnew := h.register hregistry
      refine ⟨hnew, fun _ => .inr (.inr (.inr (.inr ?_)))⟩
      exact hnew.running_iff.mpr ⟨s.tasks.length, .begin fp, get_register.trans (if_pos rfl),
        rfl, ReconnectTask.begin_runs fp⟩

/-- The pump goes on with a `SessionDown`. -/
theorem schedule_down (h : ReconnectInv s) {point : ScheduleAt}
    (hpump : s.pump = .scheduling fp point)
    (hfree : point = .registry → s.registry fp = none ∨ s.Running fp ∨ s.connected fp = true ∨
      s.trusted fp = false ∨ s.remembered fp = false ∨ s.Noted fp) :
    (∀ next, (s.schedule fp point).2 = some next →
      ReconnectInv { (s.schedule fp point).1 with pump := .scheduling fp next }) ∧
    ((s.schedule fp point).2 = none → ReconnectInv { (s.schedule fp point).1 with
      pump := .idle
      lastDown := Function.update (s.schedule fp point).1.lastDown fp true }) := by
  obtain ⟨hmid, hends⟩ := h.schedule fp point
  have hsame : (s.schedule fp point).1.pump = .scheduling fp point := by
    rw [← hpump]
    cases point with
    | memory | trust | connected => rfl
    | registry =>
      unfold ReconnectDesk.schedule
      cases s.registry fp with
      | some i => rfl
      | none => rfl
  have hserves : ∀ id, (s.schedule fp point).1.Serves id → id = fp := by
    intro id hserves
    rcases hserves with heq | heq | ⟨other, heq⟩
    all_goals
      rw [hsame] at heq
      cases heq
    rfl
  refine ⟨fun next _ => ?_, fun hnone => ?_⟩
  · refine hmid.same_loops rfl rfl (fun id hcover hidle => ?_) hmid.broken
      (fun id heq => by cases heq)
    refine hcover.keep ⟨rfl, rfl, rfl, rfl⟩
      (fun hrunning => absurd hrunning hidle) (fun hserved => ?_) (fun hnoted => .noted hnoted)
    rw [hserves id hserved]
    exact .served (.inr (.inr ⟨next, rfl⟩))
  · refine hmid.same_loops rfl rfl (fun id hcover hidle => ?_) hmid.broken
      (fun id heq => by cases heq)
    by_cases hid : id = fp
    · -- the handler is done: `schedule` ended for a reason
      subst hid
      rcases hends hnone with
        ⟨hpoint, hentry, hdesk⟩ | hremembered | htrusted | hconnected | hrunning
      · rw [hdesk] at hidle ⊢
        rcases hfree hpoint with hno | hrunning | hconnected | htrusted | hremembered | hnoted
        · exact absurd hno hentry
        · exact absurd hrunning hidle
        · exact .connected hconnected
        · exact .untrusted htrusted
        · exact .forgotten hremembered
        · exact .noted hnoted
      · exact .forgotten hremembered
      · exact .untrusted htrusted
      · exact .connected hconnected
      · exact absurd hrunning hidle
    · exact hcover.keep ⟨Function.update_of_ne hid _ _, rfl, rfl, rfl⟩
        (fun hrunning => absurd hrunning hidle)
        (fun hserved => absurd (hserves id hserved) hid) (fun hnoted => .noted hnoted)

/-- The pump goes on. -/
theorem pump (h : ReconnectInv s) {trace : List (ReconnectEvent Fp)}
    (hfree : NoneLost trace s .pump) (hnext : s.pumpStep = some next) : ReconnectInv next := by
  unfold pumpStep at hnext
  cases hpump : s.pump with simp only [hpump] at hnext
  | idle =>
    cases hnotes : s.notes with
    | nil =>
      rw [hnotes] at hnext
      cases hnext
    | cons note rest =>
      rw [hnotes] at hnext
      cases note with
      | up fp =>
        obtain rfl := Option.some.inj hnext
        refine h.take_note hnotes hpump (fun id heq => ?_) (fun id heq => by cases heq)
        obtain rfl : fp = id := by simpa using heq
        exact .inl rfl
      | down fp =>
        obtain rfl := Option.some.inj hnext
        refine h.take_note hnotes hpump (fun id heq => ?_) (fun id heq => by cases heq)
        obtain rfl : fp = id := by simpa using heq
        exact .inr (.inl rfl)
      | broken fp =>
        obtain rfl := Option.some.inj hnext
        refine h.take_note hnotes hpump (fun id heq => by simp at heq) (fun id heq => ?_)
        obtain rfl := PumpAt.breaking.inj heq
        rfl
  | raising fp =>
    obtain rfl := Option.some.inj hnext
    refine h.same_loops rfl rfl (fun id hcover hidle => ?_) h.broken (fun id heq => by cases heq)
    by_cases hid : id = fp
    · rw [hid]
      exact .connected (Function.update_self _ _ _)
    · refine hcover.keep ⟨Function.update_of_ne hid _ _, Function.update_of_ne hid _ _, rfl, rfl⟩
        (fun hrunning => absurd hrunning hidle)
        (fun hserved => ?_) (fun hnoted => .noted hnoted)
      rcases hserved with heq | heq | ⟨point, heq⟩
      all_goals
        rw [hpump] at heq
        cases heq
      exact absurd rfl hid
  | lowering fp =>
    obtain rfl := Option.some.inj hnext
    refine h.same_loops rfl rfl (fun id hcover hidle => ?_) h.broken (fun id heq => by cases heq)
    by_cases hid : id = fp
    · rw [hid]
      exact .served (.inr (.inr ⟨.memory, rfl⟩))
    · refine hcover.keep ⟨rfl, Function.update_of_ne hid _ _, rfl, rfl⟩
        (fun hrunning => absurd hrunning hidle)
        (fun hserved => ?_) (fun hnoted => .noted hnoted)
      rcases hserved with heq | heq | ⟨point, heq⟩
      all_goals
        rw [hpump] at heq
        cases heq
      exact absurd rfl hid
  | scheduling fp point =>
    obtain ⟨hgoes, hends⟩ := h.schedule_down hpump
      (fun hpoint => hfree fp (by rw [hpump, hpoint]))
    split at hnext
    · next mid later hsplit =>
      obtain rfl := Option.some.inj hnext
      have hresult := hgoes later (congrArg Prod.snd hsplit)
      rw [congrArg Prod.fst hsplit] at hresult
      exact hresult
    · next mid hsplit =>
      obtain rfl := Option.some.inj hnext
      have hresult := hends (congrArg Prod.snd hsplit)
      rw [congrArg Prod.fst hsplit] at hresult
      exact hresult
  | breaking fp =>
    obtain rfl := Option.some.inj hnext
    refine h.same_loops rfl rfl (fun id hcover hidle => ?_) h.broken (fun id heq => by cases heq)
    by_cases hid : id = fp
    · -- the device is not trusted any more, or it was paired again
      subst hid
      rcases h.breaking id hpump with htrusted | hup
      · exact .untrusted htrusted
      · exact .noted (.inl hup)
    · refine hcover.keep ⟨rfl, Function.update_of_ne hid _ _, rfl, rfl⟩
        (fun hrunning => absurd hrunning hidle)
        (fun hserved => ?_) (fun hnoted => .noted hnoted)
      rcases hserved with heq | heq | ⟨point, heq⟩
      all_goals
        rw [hpump] at heq
        cases heq
  | forgetting fp =>
    obtain rfl := Option.some.inj hnext
    refine h.same_loops rfl rfl (fun id hcover hidle => ?_) h.broken (fun id heq => by cases heq)
    by_cases hid : id = fp
    · rw [hid]
      exact .forgotten (Function.update_self _ _ _)
    · refine hcover.keep ⟨rfl, rfl, rfl, Function.update_of_ne hid _ _⟩
        (fun hrunning => absurd hrunning hidle)
        (fun hserved => ?_) (fun hnoted => .noted hnoted)
      rcases hserved with heq | heq | ⟨point, heq⟩
      all_goals
        rw [hpump] at heq
        cases heq

/-- A loop goes on. -/
theorem turn (h : ReconnectInv s) (htask : s.tasks[i]? = some task) {answer : Bool}
    {emitted : List (ReconnectEvent Fp)} (hnext : s.turn i task answer = some (next, emitted)) :
    ReconnectInv next := by
  have hfirst : ∀ {after : ReconnectDesk Fp} {events : List (ReconnectEvent Fp)},
      ReconnectInv after → some (after, events) = some (next, emitted) → ReconnectInv next := by
    intro after events hafter heq
    obtain ⟨rfl, -⟩ := answer_inj heq
    exact hafter
  have hgo : ∀ {after : ReconnectTask Fp} {events : List (ReconnectEvent Fp)},
      some (s.setTask i after, events) = some (next, emitted) → after.fp = task.fp →
      task.point ≠ .gone → after.Runs → ReconnectInv next := fun heq hfp hgone hruns =>
    hfirst (h.set_task htask hfp hgone hruns.2 (fun hleaves => absurd hleaves hruns.1)) heq
  -- a loop that breaks out has just seen why its device needs none
  have hleave : ∀ {events : List (ReconnectEvent Fp)},
      some (s.setTask i { task with point := .leaving }, events) = some (next, emitted) →
      task.point ≠ .gone → (s.setTask i { task with point := .leaving }).Cover task.fp →
      ReconnectInv next := fun heq hgone hcover =>
    hfirst (h.set_task htask
      (rfl : ({ task with point := .leaving } : ReconnectTask Fp).fp = task.fp) hgone
      LoopAt.noConfusion (fun _ => hcover)) heq
  unfold ReconnectDesk.turn at hnext
  cases hpoint : task.point with simp only [hpoint] at hnext
  | connected =>
    split at hnext
    · next hconnected =>
      exact hleave hnext (by simp [hpoint]) (.connected hconnected)
    · exact hgo hnext rfl (by simp [hpoint]) ⟨by simp, by simp⟩
  | trust =>
    split at hnext
    · exact hgo hnext rfl (by simp [hpoint]) ⟨by simp, by simp⟩
    · next htrusted =>
      exact hleave hnext (by simp [hpoint]) (.untrusted (eq_false_of_ne_true htrusted))
  | memory =>
    split at hnext
    · split at hnext
      · exact hgo hnext rfl (by simp [hpoint]) ⟨by simp, by simp⟩
      · exact hgo hnext rfl (by simp [hpoint]) ⟨by simp, by simp⟩
    · next hremembered =>
      exact hleave hnext (by simp [hpoint]) (.forgotten (eq_false_of_ne_true hremembered))
  | sleeping =>
    exact hgo hnext rfl (by simp [hpoint]) ⟨by simp, by simp⟩
  | woken =>
    split at hnext
    · next hconnected =>
      exact hleave hnext (by simp [hpoint]) (.connected hconnected)
    · exact hgo hnext rfl (by simp [hpoint]) ⟨by simp, by simp⟩
  | address =>
    split at hnext
    · exact hgo hnext rfl (by simp [hpoint]) ⟨by simp, by simp⟩
    · split at hnext
      · exact hgo hnext rfl (by simp [hpoint]) ⟨by simp, by simp⟩
      · split at hnext
        · exact hgo hnext rfl (by simp [hpoint]) ⟨by simp, by simp⟩
        · exact hgo hnext rfl (by simp [hpoint]) ⟨by simp, by simp⟩
  | connecting =>
    split at hnext
    · refine hfirst ?_ hnext
      -- the loop leaves, and the event of the session it made waits for the pump
      cases htrusted : s.trusted task.fp with
      | true =>
        rw [if_pos rfl]
        have hnoted := h.note (.up task.fp) (fun fp heq => by cases heq)
        exact hnoted.set_task htask rfl (by simp [hpoint]) (by simp)
          (fun _ => .noted (.inl (List.mem_append_right _ (List.mem_singleton.mpr rfl))))
      | false =>
        rw [if_neg (by decide)]
        exact h.set_task htask rfl (by simp [hpoint]) (by simp) (fun _ => .untrusted htrusted)
    · exact hgo hnext rfl (by simp [hpoint]) ⟨by simp, by simp⟩
  | leaving =>
    exact hfirst (h.leave htask hpoint) hnext
  | gone =>
    cases hnext

/-- A device loses the trust. -/
theorem untrust (h : ReconnectInv s) (fp : Fp) :
    ReconnectInv { s with trusted := Function.update s.trusted fp false } := by
  have htrusted : ∀ id, s.trusted id = false → Function.update s.trusted fp false id = false := by
    intro id hid
    rw [Function.update_apply, hid, ite_self]
  refine h.same_loops rfl rfl (fun id hcover hidle => ?_) ?_ ?_
  · by_cases hid : id = fp
    · rw [hid]
      exact .untrusted (Function.update_self _ _ _)
    · exact hcover.keep ⟨rfl, rfl, Function.update_of_ne hid _ _, rfl⟩
        (fun hrunning => absurd hrunning hidle) (fun hserved => .served hserved)
        (fun hnoted => .noted hnoted)
  · intro id before after hsplit
    exact (h.broken id before after hsplit).imp_left (htrusted id)
  · intro id hpump
    exact (h.breaking id hpump).imp_left (htrusted id)

/-- A device is paired: it is trusted, and its session is reported. -/
theorem pair (h : ReconnectInv s) (fp : Fp) : ReconnectInv { s with
    trusted := Function.update s.trusted fp true
    notes := s.notes ++ [.up fp] } := by
  have hnoted := h.note (.up fp) (fun fp heq => by cases heq)
  have hmem : SessionNote.up fp ∈ s.notes ++ [.up fp] :=
    List.mem_append_right _ (List.mem_singleton.mpr rfl)
  refine hnoted.same_loops rfl rfl (fun id hcover hidle => ?_) ?_ ?_
  · by_cases hid : id = fp
    · rw [hid]
      exact .noted (.inl hmem)
    · exact hcover.keep ⟨rfl, rfl, Function.update_of_ne hid _ _, rfl⟩
        (fun hrunning => absurd hrunning hidle)
        (fun hserved => .served hserved) (fun hnoted => .noted hnoted)
  · intro id before after hsplit
    by_cases hid : id = fp
    · -- whatever waits of the device, the new session waits behind it
      right
      rw [hid] at hsplit ⊢
      rcases List.append_eq_append_iff.mp hsplit with ⟨between, -, htail⟩ | ⟨between, -, htail⟩
      · cases between with
        | nil => cases (List.cons.inj htail).1
        | cons first rest => simp at htail
      · cases between with
        | nil => cases (List.cons.inj htail).1
        | cons first rest =>
          rw [(List.cons.inj htail).2]
          exact List.mem_append_right _ (List.mem_singleton.mpr rfl)
    · exact (hnoted.broken id before after hsplit).imp_left (Function.update_of_ne hid _ _).trans
  · intro id hpump
    by_cases hid : id = fp
    · rw [hid]
      exact .inr hmem
    · exact (hnoted.breaking id hpump).imp_left (Function.update_of_ne hid _ _).trans

/-- What the desk keeps, it keeps with every step that meets the guard. -/
theorem step (h : ReconnectInv s) {trace emitted : List (ReconnectEvent Fp)}
    {input : ReconnectInput Fp} (hfree : NoneLost trace s input)
    (hnext : ReconnectDesk.step s input = some (next, emitted)) : ReconnectInv next := by
  cases input with
  | sessionUp fp =>
    obtain ⟨rfl, -⟩ := answer_inj hnext
    exact h.note _ (fun fp heq => by cases heq)
  | sessionDown fp =>
    obtain ⟨rfl, -⟩ := answer_inj hnext
    exact h.note _ (fun fp heq => by cases heq)
  | paired fp =>
    obtain ⟨rfl, -⟩ := answer_inj hnext
    exact h.pair fp
  | trustBroken fp =>
    obtain ⟨rfl, -⟩ := answer_inj hnext
    refine (h.untrust fp).note _ (fun id heq => ?_)
    obtain rfl := SessionNote.broken.inj heq
    exact Function.update_self _ _ _
  | untrusts fp =>
    obtain ⟨rfl, -⟩ := answer_inj hnext
    exact h.untrust fp
  | forgets fp =>
    obtain ⟨rfl, -⟩ := answer_inj hnext
    refine h.same_loops rfl rfl (fun id hcover hidle => ?_) h.broken h.breaking
    by_cases hid : id = fp
    · rw [hid]
      exact .forgotten (Function.update_self _ _ _)
    · exact hcover.keep ⟨rfl, rfl, rfl, Function.update_of_ne hid _ _⟩
        (fun hrunning => absurd hrunning hidle) (fun hserved => .served hserved)
        (fun hnoted => .noted hnoted)
  | connects fp =>
    obtain ⟨rfl, -⟩ := answer_inj hnext
    refine h.same_loops rfl rfl (fun id hcover hidle => ?_) h.broken h.breaking
    by_cases hid : id = fp
    · rw [hid]
      exact .connected (Function.update_self _ _ _)
    · exact hcover.keep ⟨rfl, Function.update_of_ne hid _ _, rfl, rfl⟩
        (fun hrunning => absurd hrunning hidle) (fun hserved => .served hserved)
        (fun hnoted => .noted hnoted)
  | remembers fp =>
    obtain ⟨rfl, -⟩ := answer_inj hnext
    refine h.same_loops rfl rfl (fun id hcover hidle => ?_) h.broken h.breaking
    by_cases hid : id = fp
    · subst hid
      cases hcover with
      | forgotten hforgotten =>
        by_cases htrusted : s.trusted id = true
        · by_cases hconnected : s.connected id = true
          · exact .connected hconnected
          · by_cases hlast : s.lastDown id = true
            · by_cases hserved : s.Serves id
              · exact .served hserved
              · by_cases hnoted : s.Noted id
                · exact .noted hnoted
                · -- a device without a loop is not remembered after its session has ended
                  rcases hfree ⟨hlast, hserved, hnoted⟩ htrusted
                    (eq_false_of_ne_true hconnected) with hremembered | hrunning
                  · rw [hforgotten] at hremembered
                    cases hremembered
                  · exact absurd hrunning hidle
            · exact .raised (eq_false_of_ne_true hlast)
        · exact .untrusted (eq_false_of_ne_true htrusted)
      | raised hraised => exact .raised hraised
      | connected hconnected => exact .connected hconnected
      | untrusted huntrusted => exact .untrusted huntrusted
      | running hrunning => exact absurd hrunning hidle
      | served hserved => exact .served hserved
      | noted hnoted => exact .noted hnoted
    · exact hcover.keep ⟨rfl, rfl, rfl, Function.update_of_ne hid _ _⟩
        (fun hrunning => absurd hrunning hidle)
        (fun hserved => .served hserved) (fun hnoted => .noted hnoted)
  | pump =>
    obtain ⟨after, hafter, heq⟩ := Option.map_eq_some_iff.mp hnext
    obtain ⟨rfl, -⟩ := Prod.mk.inj heq
    exact h.pump hfree hafter
  | schedules fp =>
    obtain ⟨rfl, -⟩ := answer_inj hnext
    exact { h with
      cover := fun id => (h.cover id).keep ⟨rfl, rfl, rfl, rfl⟩
        (fun hrunning => .running hrunning) (fun hserved => .served hserved)
        (fun hnoted => .noted hnoted) }
  | call i =>
    simp only [ReconnectDesk.step] at hnext
    split at hnext
    · next fp point hcall =>
      obtain ⟨rfl, -⟩ := answer_inj hnext
      obtain ⟨hmid, -⟩ := h.schedule fp point
      exact { hmid with
        cover := fun id => (hmid.cover id).keep ⟨rfl, rfl, rfl, rfl⟩
          (fun hrunning => .running hrunning) (fun hserved => .served hserved)
          (fun hnoted => .noted hnoted) }
    · cases hnext
  | turn i answer =>
    simp only [ReconnectDesk.step] at hnext
    split at hnext
    · cases hnext
    · next task htask => exact h.turn htask hnext

omit [DecidableEq Fp] in
/-- What the desk keeps at its start. -/
theorem start (trusted remembered : Fp → Bool) :
    ReconnectInv (ReconnectDesk.start trusted remembered) where
  live i task htask := by cases htask
  listed fp i hi := by cases hi
  cover fp := .raised rfl
  broken fp before after hsplit := by simp [ReconnectDesk.start] at hsplit
  breaking fp hpump := by cases hpump

omit [DecidableEq Fp] in
/-- What the desk keeps covers the devices. -/
theorem covered (h : ReconnectInv s) : s.Covered := by
  refine ⟨fun fp hsettled hremembered htrusted hconnected => ?_, ?_⟩
  · obtain ⟨hlast, hserves, hnoted⟩ := hsettled
    cases h.cover fp with
    | raised hraised => rw [hlast] at hraised; cases hraised
    | connected h => rw [hconnected] at h; cases h
    | untrusted h => rw [htrusted] at h; cases h
    | forgotten h => rw [hremembered] at h; cases h
    | running hrunning => exact hrunning
    | served h => exact absurd h hserves
    | noted h => exact absurd h hnoted
  · intro i j task other htask hother hgone hothergone hfp
    have hi := h.live i task htask hgone
    rw [hfp, h.live j other hother hothergone] at hi
    exact (Option.some.inj hi).symm

end ReconnectInv

/-- Every run in which the pump does not meet a loop that is about to leave, and no device is
remembered too late, keeps all devices covered. -/
theorem reconnect_coverage {trusted remembered : Fp → Bool} {inputs : List (ReconnectInput Fp)}
    {trace : List (ReconnectEvent Fp)}
    (h : Exec step NoneLost (start trusted remembered) inputs trace s) : s.Covered := by
  have hinv : ReconnectInv s := by
    induction h with
    | start => exact .start trusted remembered
    | step _ hfree hnext ih => exact ih.step hfree hnext
  exact hinv.covered

section Samples

instance (s : ReconnectDesk Fp) (fp : Fp) : Decidable (s.Running fp) :=
  match hregistered : s.registered fp with
  | none => .isFalse fun ⟨task, htask, _⟩ => by
      rw [hregistered] at htask
      cases htask
  | some task =>
    decidable_of_iff (task.fp = fp ∧ task.Runs) ⟨fun h => ⟨task, hregistered, h⟩,
      fun ⟨found, hfound, hrest⟩ => by
        obtain rfl := Option.some.inj (hregistered.symm.trans hfound)
        exact hrest⟩

instance (s : ReconnectDesk Fp) (fp : Fp) : Decidable (s.Noted fp) :=
  inferInstanceAs (Decidable (_ ∨ _))

instance (s : ReconnectDesk Fp) (fp : Fp) : Decidable (s.Serves fp) :=
  match hpump : s.pump with
  | .idle | .breaking _ | .forgetting _ => .isFalse fun h => by
      rcases h with h | h | ⟨point, h⟩
      all_goals
        rw [hpump] at h
        cases h
  | .raising id => decidable_of_iff (id = fp) (by simp [Serves, hpump])
  | .lowering id => decidable_of_iff (id = fp) (by simp [Serves, hpump])
  | .scheduling id _ => decidable_of_iff (id = fp) (by simp [Serves, hpump])

instance (s : ReconnectDesk Fp) (fp : Fp) : Decidable (s.Settled fp) :=
  inferInstanceAs (Decidable (_ ∧ _ ∧ _))

instance (trace : List (ReconnectEvent Fp)) (s : ReconnectDesk Fp) :
    ∀ input, Decidable (NoneLost trace s input)
  | .pump =>
    match hpump : s.pump with
    | .scheduling fp .registry =>
      decidable_of_iff (s.registry fp = none ∨ s.Running fp ∨ s.connected fp = true ∨
        s.trusted fp = false ∨ s.remembered fp = false ∨ s.Noted fp) (by
          simp only [NoneLost, hpump]
          constructor
          · intro h id heq
            obtain rfl := (PumpAt.scheduling.inj heq).1
            exact h
          · exact fun h => h fp rfl)
    | .idle | .raising _ | .lowering _ | .breaking _ | .forgetting _ | .scheduling _ .memory
    | .scheduling _ .trust | .scheduling _ .connected => .isTrue (by simp [NoneLost, hpump])
  | .remembers fp => inferInstanceAs (Decidable (s.Settled fp → s.trusted fp = true →
      s.connected fp = false → s.remembered fp = true ∨ s.Running fp))
  | .sessionUp _ | .sessionDown _ | .paired _ | .trustBroken _ | .untrusts _ | .forgets _
  | .connects _ | .schedules _ | .call _ | .turn _ _ => .isTrue trivial

/-- The session of a remembered device ends, a loop is started for it, the device connects by itself
and the loop sees that; then the session ends again. -/
def sampleReconnect : List (ReconnectInput Nat) :=
  [.sessionUp 1, .pump, .pump, .sessionDown 1, .pump, .pump, .pump, .pump, .pump, .pump,
    .sessionUp 1, .pump, .pump, .turn 0 false, .sessionDown 1, .pump, .pump, .pump, .pump, .pump]

/-- The pump finds the loop registered that is about to leave, and the device is left alone. -/
theorem reconnect_lost :
    ¬ ∀ (trusted remembered : Nat → Bool) inputs trace s,
      Exec step Guard.free (start trusted remembered) inputs trace s → s.Covered := by
  intro hall
  obtain ⟨trace, last, hexec, hview⟩ := exec_reaches step Guard.free
    (start (fun _ => true) (fun _ => true)) (sampleReconnect ++ [.pump, .turn 0 false])
    (fun s => (decide (s.Settled 1), s.remembered 1, s.trusted 1, s.connected 1,
      decide (s.Running 1))) (true, true, true, false, false) (by decide +kernel)
  obtain ⟨hsettled, hremembered, htrusted, hconnected, hrunning⟩ :
      decide (last.Settled 1) = true ∧ last.remembered 1 = true ∧ last.trusted 1 = true ∧
        last.connected 1 = false ∧ decide (last.Running 1) = false := by
    simpa only [Prod.mk.injEq] using hview
  exact of_decide_eq_false hrunning ((hall _ _ _ _ _ hexec).running 1
    (of_decide_eq_true hsettled) hremembered htrusted hconnected)

/-- The loop takes itself off the registry before the pump looks at it. -/
theorem reconnect_coverage_sample : ∃ trace s,
    Exec step NoneLost (start (fun _ => true) (fun _ => true))
      (sampleReconnect ++ [.turn 0 false, .pump]) trace s ∧ s.Covered := by
  obtain ⟨trace, last, hexec, -⟩ := exec_reaches step NoneLost
    (start (fun _ => true) (fun _ => true)) (sampleReconnect ++ [.turn 0 false, .pump])
    (fun s => decide (s.Running 1)) true (by decide +kernel)
  exact ⟨trace, last, hexec, reconnect_coverage hexec⟩

end Samples

end Registry

end ReconnectDesk

end LocalTrans.Desktop
