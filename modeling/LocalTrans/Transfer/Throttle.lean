import LocalTrans.Foundation.Execution
import LocalTrans.Foundation.Places

/-!
# The throttle of a sender job

The router of `spawn_rpc_router` admits a `FetchReq` when `active_streams` is below `throttle_cap`
and spawns a task for it. The task waits at the pause gate and counts itself in `active_streams`
only then. Router and tasks run side by side: `step` is one atomic step of one of them, and `Exec`
collects the interleavings. Between the check and the count any number of requests can pass, so the
cap holds in a run (`streams_bounded`) when each of them counted those that waited.
-/

namespace LocalTrans

open Foundation

/-- Where the task of an admitted request stands: before the pause flag, where it was found paused,
before `fetch_add`, in `run_sender`, and after `fetch_sub` or where it gave up. -/
inductive SendPoint where
  | gate | paused | opened | sending | ended
deriving DecidableEq

/-- The task of an admitted request. `cap` is the one that the router compared with. -/
structure SendTask where
  chunk : Nat
  cap : UInt32
  point : SendPoint
deriving DecidableEq

/-- Where the router stands in a `FetchReq`: it takes the next message, it has read
`active_streams`, or it looks up the session for an admitted request. -/
inductive RouterPoint where
  | idle
  | counted (chunk : Nat) (cur : UInt32)
  | admitted (chunk : Nat) (cap : UInt32)
deriving DecidableEq

/-- What the streams of a sender job depend on. The router and the tasks hold the state of a job
that is no longer registered. -/
structure SenderStreams where
  registered : Bool
  chunkCount : Nat
  activeStreams : UInt32
  throttleCap : UInt32
  paused : Bool
  cancelled : Bool
  router : RouterPoint
  tasks : List SendTask
deriving DecidableEq

/-- The steps of the router, of the commands of the shell and of the tasks: a `FetchReq` of a peer
that may download or not, the comparison, the lookup of the session, a `Throttle` message,
`transfer_throttle`, the end of the job, the flags that `transfer_action` sets, and one step of the
task of a request. -/
inductive StreamInput where
  | fetchReq (download : Bool) (chunk : Nat)
  | check
  | session (found : Bool)
  | throttle (maxStreams : UInt32)
  | transferThrottle (maxStreams : UInt32)
  | remove
  | setPaused (paused : Bool)
  | cancel
  | advance (task : Nat)
deriving DecidableEq

inductive StreamEvent where
  | sourceFailed
  | throttled (chunk : Nat)
  | started (chunk : Nat)
  | sent (chunk : Nat)
deriving DecidableEq

namespace SenderStreams

/-- `new_sender_job_state`. -/
def start (chunkCount : Nat) : SenderStreams where
  registered := true
  chunkCount := chunkCount
  activeStreams := 0
  throttleCap := 0xFFFFFFFF
  paused := false
  cancelled := false
  router := .idle
  tasks := []

/-- The task in a place goes to another point. -/
def moveTask (s : SenderStreams) (place : Nat) (task : SendTask) (point : SendPoint) :
    SenderStreams :=
  { s with tasks := s.tasks.set place { task with point := point } }

/-- One step of a task. -/
def advance (s : SenderStreams) (place : Nat) (task : SendTask) :
    Option (SenderStreams × List StreamEvent) :=
  match task.point with
  | .gate => some (s.moveTask place task (if s.paused then .paused else .opened), [])
  | .paused => some (s.moveTask place task (if s.cancelled then .ended else .gate), [])
  | .opened =>
    some ({ s.moveTask place task .sending with activeStreams := s.activeStreams + 1 },
      [.started task.chunk])
  | .sending =>
    some ({ s.moveTask place task .ended with activeStreams := s.activeStreams - 1 },
      [.sent task.chunk])
  | .ended => none

/-- One step of the router, of the shell or of a task. -/
def step : Machine SenderStreams StreamInput StreamEvent := fun s input =>
  match input with
  | .fetchReq download chunk =>
    match s.router with
    | .idle =>
      if !download || !s.registered then some (s, [])
      else if s.cancelled then some ({ s with registered := false }, [.sourceFailed])
      else some ({ s with router := .counted chunk s.activeStreams }, [])
    | _ => none
  | .check =>
    match s.router with
    | .counted chunk cur =>
      if s.throttleCap ≤ cur then some ({ s with router := .idle }, [.throttled chunk])
      else if s.chunkCount ≤ chunk then some ({ s with router := .idle }, [])
      else some ({ s with router := .admitted chunk s.throttleCap }, [])
    | _ => none
  | .session found =>
    match s.router with
    | .admitted chunk cap =>
      if found then
        some ({ s with router := .idle, tasks := s.tasks ++ [⟨chunk, cap, .gate⟩] }, [])
      else some ({ s with router := .idle }, [])
    | _ => none
  | .throttle maxStreams =>
    match s.router with
    | .idle => some (if s.registered then { s with throttleCap := maxStreams } else s, [])
    | _ => none
  | .transferThrottle maxStreams =>
    some (if s.registered then { s with throttleCap := max maxStreams 1 } else s, [])
  | .remove => some ({ s with registered := false }, [])
  | .setPaused paused => some ({ s with paused := paused }, [])
  | .cancel => some ({ s with cancelled := true }, [])
  | .advance place => (s.tasks[place]?).bind (s.advance place)

/-- The streams that are being sent. -/
def sending (s : SenderStreams) : Nat := s.tasks.countP (·.point == .sending)

/-- The admitted requests whose task has not ended. -/
def unended (s : SenderStreams) : Nat := s.tasks.countP (·.point != .ended)

/-- No more streams are being sent than the cap under which the last of them was admitted. -/
def Bounded (s : SenderStreams) : Prop :=
  ∀ (last : Nat) (task : SendTask), s.tasks[last]? = some task → task.point = .sending →
    (∀ (place : Nat) (other : SendTask), s.tasks[place]? = some other →
      other.point = .sending → place ≤ last) →
    s.sending ≤ task.cap.toNat

/-- With no task left, `active_streams` is zero. -/
def Settled (s : SenderStreams) : Prop :=
  (∀ task ∈ s.tasks, task.point = .ended) → s.activeStreams = 0

/-- A request that passes the check finds room below the cap for the tasks that have not ended,
those that wait at the pause gate among them. -/
def roomGuard : Guard SenderStreams StreamInput StreamEvent := fun _ s input =>
  match input, s.router with
  | .check, .counted chunk cur =>
    cur < s.throttleCap → chunk < s.chunkCount → s.unended < s.throttleCap.toNat
  | _, _ => True

instance (trace : List StreamEvent) (s : SenderStreams) (input : StreamInput) :
    Decidable (roomGuard trace s input) := by
  unfold roomGuard
  split <;> infer_instance

section Steps

variable {s next : SenderStreams} {input : StreamInput} {emitted : List StreamEvent} {place : Nat}
  {task : SendTask}

/-- A step of a task changes its point, and the counter with the stream. -/
theorem advance_cases (h : s.advance place task = some (next, emitted)) :
    ∃ point, task.point ≠ .ended ∧ next.router = s.router ∧
      next.tasks = s.tasks.set place { task with point := point } ∧
      ((task.point ≠ .sending ∧ point ≠ .sending ∧ next.activeStreams = s.activeStreams) ∨
        (task.point ≠ .sending ∧ point = .sending ∧
          next.activeStreams = s.activeStreams + 1) ∨
        (task.point = .sending ∧ point ≠ .sending ∧
          next.activeStreams = s.activeStreams - 1)) := by
  unfold advance at h
  cases hpoint : task.point with simp only [hpoint, Option.some.injEq, Prod.mk.injEq] at h
  | gate =>
    obtain ⟨rfl, -⟩ := h
    refine ⟨_, by simp, rfl, rfl, .inl ⟨by simp, ?_, rfl⟩⟩
    split <;> simp
  | paused =>
    obtain ⟨rfl, -⟩ := h
    refine ⟨_, by simp, rfl, rfl, .inl ⟨by simp, ?_, rfl⟩⟩
    split <;> simp
  | opened =>
    obtain ⟨rfl, -⟩ := h
    exact ⟨_, by simp, rfl, rfl, .inr (.inl ⟨by simp, rfl, rfl⟩)⟩
  | sending =>
    obtain ⟨rfl, -⟩ := h
    exact ⟨_, by simp, rfl, rfl, .inr (.inr ⟨rfl, by simp, rfl⟩)⟩
  | ended => simp [hpoint] at h

/-- A request is looked up and counted; nothing is admitted yet. -/
theorem request_cases {download : Bool} {chunk : Nat}
    (h : step s (.fetchReq download chunk) = some (next, emitted)) :
    next.tasks = s.tasks ∧ next.activeStreams = s.activeStreams ∧
      ∀ admitted cap, next.router ≠ .admitted admitted cap := by
  unfold step at h
  cases hrouter : s.router with
  | idle =>
    simp only [hrouter] at h
    split at h
    · obtain ⟨rfl, -⟩ := by simpa using h
      exact ⟨rfl, rfl, by simp [hrouter]⟩
    · split at h
      · obtain ⟨rfl, -⟩ := by simpa using h
        exact ⟨rfl, rfl, by simp⟩
      · obtain ⟨rfl, -⟩ := by simpa using h
        exact ⟨rfl, rfl, by simp⟩
  | counted found cur => simp [hrouter] at h
  | admitted found cap => simp [hrouter] at h

/-- What the check admits has passed it. -/
theorem check_cases (h : step s .check = some (next, emitted)) :
    next.tasks = s.tasks ∧ next.activeStreams = s.activeStreams ∧
      ∀ chunk cap, next.router = .admitted chunk cap → cap = s.throttleCap ∧
        ∃ cur, s.router = .counted chunk cur ∧ cur < s.throttleCap ∧ chunk < s.chunkCount := by
  unfold step at h
  cases hrouter : s.router with
  | counted chunk cur =>
    simp only [hrouter] at h
    split at h
    · obtain ⟨rfl, -⟩ := by simpa using h
      exact ⟨rfl, rfl, fun _ _ hadmitted => by cases hadmitted⟩
    · next hroom =>
      split at h
      · obtain ⟨rfl, -⟩ := by simpa using h
        exact ⟨rfl, rfl, fun _ _ hadmitted => by cases hadmitted⟩
      · next hchunk =>
        obtain ⟨rfl, -⟩ := by simpa using h
        refine ⟨rfl, rfl, fun _ _ hadmitted => ?_⟩
        obtain ⟨rfl, rfl⟩ := RouterPoint.admitted.inj hadmitted
        exact ⟨rfl, cur, rfl, UInt32.not_le.mp hroom, Nat.lt_of_not_le hchunk⟩
  | idle => simp [hrouter] at h
  | admitted chunk cap => simp [hrouter] at h

/-- The caps and flags of the job are changed elsewhere, and the router stays where it is. -/
theorem flags_cases (hinput : ∀ download chunk, input ≠ .fetchReq download chunk)
    (hcheck : input ≠ .check) (hsession : ∀ found, input ≠ .session found)
    (hadvance : ∀ place, input ≠ .advance place) (h : step s input = some (next, emitted)) :
    next.tasks = s.tasks ∧ next.activeStreams = s.activeStreams ∧ next.router = s.router := by
  cases input with
  | fetchReq download chunk => exact absurd rfl (hinput download chunk)
  | check => exact absurd rfl hcheck
  | session found => exact absurd rfl (hsession found)
  | advance place => exact absurd rfl (hadvance place)
  | throttle maxStreams =>
    unfold step at h
    cases hrouter : s.router with
    | idle =>
      simp only [hrouter] at h
      obtain ⟨rfl, -⟩ := by simpa using h
      split <;> simp [hrouter]
    | counted chunk cur => simp [hrouter] at h
    | admitted chunk cap => simp [hrouter] at h
  | transferThrottle maxStreams =>
    obtain ⟨rfl, -⟩ := by simpa [step] using h
    split <;> exact ⟨rfl, rfl, rfl⟩
  | remove =>
    obtain ⟨rfl, -⟩ := by simpa [step] using h
    exact ⟨rfl, rfl, rfl⟩
  | setPaused paused =>
    obtain ⟨rfl, -⟩ := by simpa [step] using h
    exact ⟨rfl, rfl, rfl⟩
  | cancel =>
    obtain ⟨rfl, -⟩ := by simpa [step] using h
    exact ⟨rfl, rfl, rfl⟩

/-- A step leaves the tasks as they are, spawns the task of the admitted request, or moves a
task. A request is admitted only by a check that it passes. -/
theorem step_cases (h : step s input = some (next, emitted)) :
    (next.tasks = s.tasks ∧ next.activeStreams = s.activeStreams ∧
        ∀ chunk cap, next.router = .admitted chunk cap → s.router = .admitted chunk cap ∨
          input = .check ∧ cap = s.throttleCap ∧
            ∃ cur, s.router = .counted chunk cur ∧ cur < s.throttleCap ∧ chunk < s.chunkCount) ∨
      (∃ chunk cap, s.router = .admitted chunk cap ∧ next.router = .idle ∧
        next.tasks = s.tasks ++ [⟨chunk, cap, .gate⟩] ∧
        next.activeStreams = s.activeStreams) ∨
      ∃ place task, s.tasks[place]? = some task ∧ s.advance place task = some (next, emitted) := by
  cases input with
  | fetchReq download chunk =>
    obtain ⟨htasks, hactive, hnot⟩ := request_cases h
    exact .inl ⟨htasks, hactive, fun chunk cap hadmitted => absurd hadmitted (hnot chunk cap)⟩
  | check =>
    obtain ⟨htasks, hactive, hpassed⟩ := check_cases h
    exact .inl ⟨htasks, hactive, fun chunk cap hadmitted =>
      .inr ⟨rfl, hpassed chunk cap hadmitted⟩⟩
  | session found =>
    unfold step at h
    cases hrouter : s.router with
    | admitted chunk cap =>
      simp only [hrouter] at h
      split at h
      · obtain ⟨rfl, -⟩ := by simpa using h
        exact .inr (.inl ⟨chunk, cap, rfl, rfl, rfl, rfl⟩)
      · obtain ⟨rfl, -⟩ := by simpa using h
        exact .inl ⟨rfl, rfl, fun _ _ hadmitted => by cases hadmitted⟩
    | idle => simp [hrouter] at h
    | counted chunk cur => simp [hrouter] at h
  | advance place =>
    obtain ⟨task, hget, hadvance⟩ := Option.bind_eq_some_iff.mp (by simpa [step] using h)
    exact .inr (.inr ⟨place, task, hget, hadvance⟩)
  | throttle | transferThrottle | remove | setPaused | cancel =>
    obtain ⟨htasks, hactive, hrouter⟩ :=
      flags_cases (by simp) (by simp) (by simp) (by simp) h
    exact .inl ⟨htasks, hactive, fun chunk cap hadmitted => .inl (hrouter ▸ hadmitted)⟩

end Steps

section Counter

variable {guard : Guard SenderStreams StreamInput StreamEvent} {s next : SenderStreams}
  {input : StreamInput} {inputs : List StreamInput} {trace emitted : List StreamEvent}
  {chunkCount : Nat}

/-- The counter agrees with the streams after every step. -/
theorem counted_step (hcount : s.activeStreams = UInt32.ofNat s.sending)
    (h : step s input = some (next, emitted)) :
    next.activeStreams = UInt32.ofNat next.sending := by
  rcases step_cases h with
    ⟨htasks, hactive, -⟩ | ⟨chunk, cap, -, -, htasks, hactive⟩ | ⟨place, task, hget, hadvance⟩
  · have hsending : next.sending = s.sending := congrArg (List.countP _) htasks
    rw [hactive, hcount, hsending]
  · have hsending : next.sending = s.sending := by
      show next.tasks.countP _ = _
      rw [htasks, List.countP_append]
      simp [sending]
    rw [hactive, hcount, hsending]
  · obtain ⟨point, -, -, htasks, hkind⟩ := advance_cases hadvance
    have hsum := countP_set_add (b := { task with point := point }) (·.point == .sending) hget
    rw [← htasks] at hsum
    change next.sending + _ = s.sending + _ at hsum
    rcases hkind with ⟨hbefore, hafter, hactive⟩ | ⟨hbefore, rfl, hactive⟩ |
        ⟨hbefore, hafter, hactive⟩
    · have hsending : next.sending = s.sending := by simpa [hbefore, hafter] using hsum
      rw [hactive, hcount, hsending]
    · have hsending : next.sending = s.sending + 1 := by simpa [hbefore] using hsum
      rw [hactive, hcount, hsending, UInt32.ofNat_add]
      rfl
    · have hsending : s.sending = next.sending + 1 := by simpa [hbefore, hafter] using hsum.symm
      rw [hactive, hcount, hsending, UInt32.ofNat_add]
      exact UInt32.add_sub_cancel _ _

/-- In every run `active_streams` counts the streams that are being sent. -/
theorem counted_run (h : Exec step guard (start chunkCount) inputs trace s) :
    s.activeStreams = UInt32.ofNat s.sending := by
  induction h with
  | start => rfl
  | step _ _ hnext ih => exact counted_step ih hnext

/-- With no task left nothing is counted, so the counter is zero. -/
theorem settled_of_counted (hcount : s.activeStreams = UInt32.ofNat s.sending) : s.Settled := by
  intro hended
  have hnone : s.sending = 0 := by
    refine List.countP_eq_zero.mpr fun task hmem => ?_
    simp [hended task hmem]
  rw [hcount, hnone]
  rfl

end Counter

section Room

variable {s next : SenderStreams} {input : StreamInput} {inputs : List StreamInput}
  {trace emitted : List StreamEvent} {chunkCount : Nat}

/-- Of a list of tasks, those that have not ended. -/
def waiting (tasks : List SendTask) : Nat := tasks.countP (·.point != .ended)

/-- Every task stays below its cap with the tasks admitted before it, and an admitted request has
room left. -/
structure Booked (s : SenderStreams) : Prop where
  tasks : ∀ (place : Nat) (task : SendTask), s.tasks[place]? = some task →
    waiting (s.tasks.take (place + 1)) ≤ task.cap.toNat
  router : ∀ chunk cap, s.router = .admitted chunk cap → s.unended < cap.toNat

/-- A task that moves is not counted among the first tasks when it was not before. -/
theorem waiting_take_set {tasks : List SendTask} {place : Nat} {task : SendTask}
    (point : SendPoint) (hget : tasks[place]? = some task) (hpoint : task.point ≠ .ended)
    (count : Nat) :
    waiting ((tasks.set place { task with point := point }).take count) ≤
      waiting (tasks.take count) := by
  rw [List.take_set]
  by_cases hlt : place < count
  · have hplace : (tasks.take count)[place]? = some task := by
      rw [List.getElem?_take_of_lt hlt]
      exact hget
    have hsum := countP_set_add (b := { task with point := point })
      (fun t : SendTask => t.point != .ended) hplace
    unfold waiting
    simp only [bne_iff_ne, ne_eq, hpoint, not_false_eq_true, if_true] at hsum
    split at hsum <;> omega
  · have hlength : (tasks.take count).length ≤ place :=
      Nat.le_trans (List.length_take_le _ _) (Nat.le_of_not_lt hlt)
    exact Nat.le_of_eq (congrArg waiting (List.set_eq_of_length_le hlength))

theorem Booked.step (hinv : s.Booked) (hguard : roomGuard trace s input)
    (h : SenderStreams.step s input = some (next, emitted)) : next.Booked := by
  rcases step_cases h with
    ⟨htasks, -, hrouter⟩ | ⟨chunk, cap, hadmitted, hidle, htasks, -⟩ |
      ⟨place, task, hget, hadvance⟩
  · have hunended : next.unended = s.unended := congrArg waiting htasks
    refine ⟨?_, fun chunk cap hnow => ?_⟩
    · rw [htasks]
      exact hinv.tasks
    · rw [hunended]
      rcases hrouter chunk cap hnow with hbefore | ⟨rfl, rfl, cur, hcounted, hcur, hchunk⟩
      · exact hinv.router chunk cap hbefore
      · unfold roomGuard at hguard
        rw [hcounted] at hguard
        exact hguard hcur hchunk
  · have hroom := hinv.router chunk cap hadmitted
    refine ⟨fun place task hget => ?_, fun _ _ hnow => by rw [hidle] at hnow; cases hnow⟩
    rw [htasks, get_append] at hget
    rw [htasks]
    split at hget
    · next hlast =>
      -- the new task comes after all that have not ended, and there was room for it
      obtain rfl := Option.some.inj hget
      rw [List.take_of_length_le (by simp [hlast])]
      unfold waiting
      rw [List.countP_append]
      have hall : s.tasks.countP (·.point != .ended) < cap.toNat := hroom
      simp only [List.countP_singleton]
      split <;> omega
    · have hlt := (List.getElem?_eq_some_iff.mp hget).1
      rw [List.take_append_of_le_length (by omega)]
      exact hinv.tasks place task hget
  · obtain ⟨point, hpoint, hrouter, htasks, -⟩ := advance_cases hadvance
    refine ⟨fun other changed hother => ?_, fun chunk cap hnow => ?_⟩
    · rw [htasks] at hother ⊢
      have hless := waiting_take_set point hget hpoint (other + 1)
      rw [get_set hget] at hother
      split at hother
      · next hsame =>
        obtain rfl := Option.some.inj hother
        exact Nat.le_trans hless (hinv.tasks other task (hsame ▸ hget))
      · exact Nat.le_trans hless (hinv.tasks other changed hother)
    · rw [hrouter] at hnow
      have hless := waiting_take_set point hget hpoint s.tasks.length
      rw [List.take_length, List.take_of_length_le (by simp)] at hless
      have hbefore := hinv.router chunk cap hnow
      show waiting next.tasks < _
      rw [htasks]
      exact Nat.lt_of_le_of_lt hless hbefore

theorem booked_run (h : Exec SenderStreams.step roomGuard (start chunkCount) inputs trace s) :
    s.Booked := by
  induction h with
  | start => exact ⟨fun place task hget => by simp [start] at hget, fun _ _ hnow => by cases hnow⟩
  | step _ hguard hnext ih => exact ih.step hguard hnext

/-- The streams are among the tasks up to the last of them, and these have not ended. -/
theorem Booked.bounded (hinv : s.Booked) : s.Bounded := by
  intro last task hget _ hlast
  have hlater : (s.tasks.drop (last + 1)).countP (·.point == .sending) = 0 := by
    refine List.countP_eq_zero.mpr fun other hmem => ?_
    obtain ⟨offset, hother⟩ := List.mem_iff_getElem?.mp hmem
    rw [List.getElem?_drop] at hother
    intro hsending
    have := hlast _ other hother (by simpa using hsending)
    omega
  have hsplit : s.sending = (s.tasks.take (last + 1)).countP (·.point == .sending) := by
    unfold sending
    rw [← List.take_append_drop (last + 1) s.tasks, List.countP_append, hlater,
      List.take_append_drop]
    rfl
  rw [hsplit]
  refine Nat.le_trans (List.countP_mono_left fun other _ hsending => ?_) (hinv.tasks last task hget)
  have : other.point = .sending := by simpa using hsending
  simp [this]

end Room

/-- Where every request that passes the check finds room for the tasks that have not ended, the
streams of the job stay below the cap under which the last of them was admitted. In every run at
all the counter is zero once all tasks have ended. -/
theorem streams_bounded (chunkCount : Nat) (inputs : List StreamInput) (trace : List StreamEvent)
    (s : SenderStreams) :
    (Exec step roomGuard (start chunkCount) inputs trace s → s.Bounded) ∧
      (Exec step Guard.free (start chunkCount) inputs trace s → s.Settled) :=
  ⟨fun h => (booked_run h).bounded, fun h => settled_of_counted (counted_run h)⟩

/-- A job of two chunks under a cap of one. The second request is sent after the first chunk. -/
theorem streams_bounded_sample :
    ∃ trace, ∃ s : SenderStreams, Exec step roomGuard (start 2)
      [.throttle 1, .fetchReq true 0, .check, .session true, .advance 0, .advance 0, .advance 0,
        .fetchReq true 1, .check, .session true, .advance 1, .advance 1] trace s ∧
      s.Bounded ∧ s.Settled ∧ (s.throttleCap, s.sending) = (1, 1) := by
  obtain ⟨trace, s, hexec, hseen⟩ := exec_reaches step roomGuard (start 2)
    [.throttle 1, .fetchReq true 0, .check, .session true, .advance 0, .advance 0, .advance 0,
      .fetchReq true 1, .check, .session true, .advance 1, .advance 1]
    (fun s => (s.throttleCap, s.sending)) (1, 1) (by decide +kernel)
  exact ⟨trace, s, hexec, (streams_bounded 2 _ trace s).1 hexec,
    (streams_bounded 2 _ trace s).2 hexec.toFree, hseen⟩

/-- Two requests of a paused job pass the check under a cap of one, because their tasks have not
counted themselves. After the pause both chunks are being sent. -/
theorem paused_burst_exceeds :
    ¬∀ (chunkCount : Nat) (inputs : List StreamInput) (trace : List StreamEvent)
      (s : SenderStreams),
      Exec step Guard.free (start chunkCount) inputs trace s → s.Bounded ∧ s.Settled := by
  intro hall
  obtain ⟨trace, s, hexec, htasks⟩ := exec_reaches step Guard.free (start 2)
    [.throttle 1, .setPaused true, .fetchReq true 0, .check, .session true, .fetchReq true 1,
      .check, .session true, .setPaused false, .advance 0, .advance 0, .advance 1, .advance 1]
    SenderStreams.tasks [⟨0, 1, .sending⟩, ⟨1, 1, .sending⟩] (by decide +kernel)
  have hbounded := (hall 2 _ trace s hexec).1 1 ⟨1, 1, .sending⟩ (by rw [htasks]; rfl) rfl
    fun place other hget _ => by
      have := (List.getElem?_eq_some_iff.mp hget).1
      rw [htasks] at this
      exact Nat.le_of_lt_succ this
  unfold sending at hbounded
  rw [htasks] at hbounded
  exact absurd hbounded (by decide)

end SenderStreams

end LocalTrans
