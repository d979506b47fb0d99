import LocalTrans.Transfer.PushPaths
import LocalTrans.Transfer.TaskControl
import Mathlib.Data.List.Nodup

/-!
# What a push and a pull leave behind

A push with large files has an entry in `push_jobs` and one in `push_controls`, and the router makes
a sender job for each of its files that the receiver asks for; a pull has an entry in
`task_controls`. `push_files_rel_cancellable` and `start_pull_parts` return in many places.
`registrations_cleaned` says after which of them nothing is left.
-/

namespace LocalTrans

open Foundation

/-- `SenderJobState`: the file it serves, and the offer it belongs to. -/
structure SenderJobState where
  jobId : Nat
  path : String
  offerId : Option Nat
deriving DecidableEq, Repr

/-- The exits of `push_files_inner` that do not take the large files out of `push_jobs`. -/
def PushExit.keeps : PushExit → Bool
  | .sendFailed _ | .timeout | .sessionNotFound | .batchFailed _ | .allSkipped => true
  | _ => false

/-- The moves that take such an exit: the offer cannot be sent, its deadline passes, the session is
gone, or the small files cannot be sent. -/
def PushMove.leaves (push : Push) : PushMove → Bool
  | .offer error => error.isSome
  | .expire =>
    match push.phase with
    | .awaitingResp .. => true
    | _ => false
  | .proceed connected => !connected
  | .batchEnd error => error.isSome
  | _ => false

namespace Push

/-- What `push_files_inner` returns with some events, if it does. -/
def returns (events : List PushEvent) : List (Except EngineError Unit) :=
  events.filterMap fun event => match event with
    | .returned _ result => some result
    | _ => none

/-- The push waits for the outcome, and the next signal is the `JobDone` of its offer. -/
def takesDone (signals : Broadcast Signal) (job : Nat) (push : Push) : Bool :=
  match push.phase with
  | .awaitingDone position _ =>
    match (signals.recv position).1 with
    | .message signal =>
      signal.peer == push.peer &&
        match signal.msg with
        | .jobDone _ offerId => offerId == job
        | _ => false
    | _ => false
  | _ => false

/-- The push goes on, or it returns by one of some exits. -/
inductive Goes (exits : PushExit → Prop) (push : Push) : Push × List PushEvent → Prop where
  | on {result : Push × List PushEvent} (hfiles : result.1.files = push.files)
      (hregistered : result.1.registered = push.registered) (hreturns : returns result.2 = [])
      (hphase : ∀ exit, result.1.phase = .finished exit → push.phase = .finished exit) :
      Goes exits push result
  | out {result : Push × List PushEvent} (exit : PushExit) (hexit : exits exit)
      (hfiles : result.1.files = push.files)
      (hregistered : result.1.registered = (exit.keeps && push.registered))
      (hreturns : returns result.2 = [exit.result]) (hphase : result.1.phase = .finished exit) :
      Goes exits push result

/-- The exits that take the large files out of `push_jobs` and return an error. -/
def CleanFailure (exit : PushExit) : Prop :=
  exit.keeps = false ∧ exit ≠ .done

/-- How a move can return: by an exit that keeps the large files only if there are none or the move
takes such an exit, and with `Ok` only when all files were skipped or the `JobDone` was taken. -/
def MayExit (signals : Broadcast Signal) (job : Nat) (push : Push) (move : PushMove)
    (exit : PushExit) : Prop :=
  (exit = .allSkipped ∧ largeFiles push.files = []) ∨
    (exit = .done ∧ move = .poll ∧ push.takesDone signals job = true) ∨ CleanFailure exit ∨
    (move.leaves push = true ∧ exit.keeps = true ∧ exit ≠ .allSkipped)

section Exits

variable {signals : Broadcast Signal} {job position deadline : Nat} {push : Push} {exit : PushExit}
  {exits : PushExit → Prop}

@[simp] theorem returns_append (before after : List PushEvent) :
    returns (before ++ after) = returns before ++ returns after :=
  List.filterMap_append

@[simp] theorem returns_started (files : List LocalFile) : returns (started job files) = [] := by
  unfold returns started
  rw [List.filterMap_map]
  exact List.filterMap_eq_nil_iff.mpr fun file _ => rfl

@[simp] theorem returns_done : returns (push.doneEvents job) = [] := by
  refine List.filterMap_eq_nil_iff.mpr fun event hmem => ?_
  rw [List.eq_of_mem_replicate hmem]

theorem finish_goes (hexit : exits exit) (h : exit.keeps = true) :
    Goes exits push (push.finish job exit) :=
  .out exit hexit rfl (by rw [h]; rfl) rfl rfl

theorem finish_clean_goes (hexit : exits exit) (h : exit.keeps = false) :
    Goes exits push (push.finishClean job exit) :=
  .out exit hexit rfl (by rw [h]; rfl) rfl rfl

/-- What a push does that has changed nothing but its answer. -/
theorem Goes.answered {answer : Option Signal} {result : Push × List PushEvent}
    (h : Goes exits { push with answer } result) : Goes exits push result := by
  cases h with
  | on hfiles hregistered hreturns hphase => exact .on hfiles hregistered hreturns hphase
  | out exit hexit hfiles hregistered hreturns hphase =>
    exact .out exit hexit hfiles hregistered hreturns hphase

/-- Events that are no return may come first. -/
theorem Goes.after {first : List PushEvent} {result : Push × List PushEvent}
    (h : Goes exits push result) (hfirst : returns first = []) :
    Goes exits push (result.1, first ++ result.2) := by
  cases h with
  | on hfiles hregistered hreturns hphase =>
    refine .on hfiles hregistered ?_ hphase
    rw [returns_append, hfirst, hreturns]
    rfl
  | out exit hexit hfiles hregistered hreturns hphase =>
    refine .out exit hexit hfiles hregistered ?_ hphase
    rw [returns_append, hfirst, hreturns]
    rfl

theorem await_resp_goes (hexit : exits .cancelled) :
    Goes exits push (push.awaitResp job position deadline) := by
  unfold awaitResp
  split
  · exact finish_clean_goes hexit rfl
  · exact .on rfl rfl rfl fun exit hexit => by cases hexit

theorem await_done_goes (hexit : exits .doneCancelled) :
    Goes exits push (push.awaitDone job position deadline) := by
  unfold awaitDone
  split
  · exact finish_clean_goes hexit rfl
  · exact .on rfl rfl rfl fun exit hexit => by cases hexit

/-- The loop that waits for the response. -/
theorem poll_resp_goes (hexits : ∀ exit, CleanFailure exit → exits exit) :
    Goes exits push (push.pollResp signals job position deadline) := by
  have hcancelled : exits .cancelled := hexits _ ⟨rfl, by simp⟩
  unfold pollResp
  split
  · next signal later hrecv =>
    unfold respSignal
    split
    · next accepted saveDir reason bitmap hpeer hmsg =>
      unfold takeResponse
      dsimp only
      split
      · exact .on rfl rfl rfl fun exit hexit => by cases hexit
      · exact (finish_clean_goes (hexits (.denied reason) ⟨rfl, by simp⟩) rfl).answered
    · exact await_resp_goes hcancelled
  · exact await_resp_goes hcancelled

/-- The loop that waits for the outcome. -/
theorem poll_done_goes (hphase : push.phase = .awaitingDone position deadline)
    (hexits : ∀ exit, CleanFailure exit → exits exit)
    (hdone : push.takesDone signals job = true → exits .done) :
    Goes exits push (push.pollDone signals job position deadline) := by
  have hcancelled : exits .doneCancelled := hexits _ ⟨rfl, by simp⟩
  unfold pollDone
  split
  · next signal later hrecv =>
    unfold doneSignal
    split
    · next other offerId hpeer hmsg =>
      split
      · next hjob =>
        have htakes : push.takesDone signals job = true := by
          unfold takesDone
          rw [hphase]
          dsimp only
          rw [hrecv]
          dsimp only
          rw [hpeer, hmsg, hjob]
          exact beq_self_eq_true job
        refine .out .done (hdone htakes) rfl rfl ?_ rfl
        show returns (doneEvents _ job ++ [.returned job (.ok ())]) = _
        rw [returns_append, returns_done]
        rfl
      · exact await_done_goes hcancelled
    · next offerId reason hpeer hmsg =>
      split
      · exact finish_clean_goes (hexits (.failed reason) ⟨rfl, by simp⟩) rfl
      · exact await_done_goes hcancelled
    · exact await_done_goes hcancelled
  · exact await_done_goes hcancelled

/-- After the small files. -/
theorem start_large_goes (hskipped : largeFiles push.files = [] → exits .allSkipped) :
    Goes exits push (push.startLarge job) := by
  unfold startLarge
  dsimp only
  split
  · exact .on rfl rfl (returns_started _) fun exit hexit => by cases hexit
  · next hnone =>
    have hlarge : largeFiles push.files = [] := by
      unfold hasFiles at hnone
      have hfiles := (Bool.or_eq_false_iff.mp (Bool.not_eq_true _ ▸ hnone)).2
      exact List.isEmpty_iff.mp (by simpa using hfiles)
    refine .out .allSkipped (hskipped hlarge) rfl rfl ?_ rfl
    show returns (started job _ ++ (push.doneEvents job ++ [.returned job (.ok ())])) = _
    rw [returns_append, returns_append, returns_started, returns_done]
    rfl

end Exits

/-- Every move of a push goes on, or returns as it may. -/
theorem advance_goes {table : PushTable} {job : Nat} {push : Push} {move : PushMove}
    {result : Push × List PushEvent} (h : table.advance job push move = some result) :
    Goes (MayExit table.signals job push move) push result := by
  have hclean : ∀ exit, CleanFailure exit → MayExit table.signals job push move exit :=
    fun exit hexit => .inr (.inr (.inl hexit))
  cases move with simp only [PushTable.advance] at h
  | offer error =>
    obtain ⟨-, h⟩ := of_when h
    cases error with
    | none =>
      cases h
      exact .on rfl rfl rfl fun exit hexit => by cases hexit
    | some text =>
      cases h
      exact finish_goes (.inr (.inr (.inr ⟨rfl, rfl, by simp⟩))) rfl
  | subscribe =>
    obtain ⟨-, h⟩ := of_when h
    cases h
    exact await_resp_goes (hclean _ ⟨rfl, by simp⟩)
  | poll =>
    split at h
    · cases h
      exact poll_resp_goes hclean
    · next hphase =>
      cases h
      exact poll_done_goes hphase hclean fun htakes => .inr (.inl ⟨rfl, rfl, htakes⟩)
    · cases h
  | expire =>
    split at h
    · next hphase =>
      obtain ⟨-, h⟩ := of_when h
      cases h
      refine finish_goes (.inr (.inr (.inr ⟨?_, rfl, by simp⟩))) rfl
      unfold PushMove.leaves
      rw [hphase]
    · obtain ⟨-, h⟩ := of_when h
      cases h
      exact finish_clean_goes (hclean _ ⟨rfl, by simp⟩) rfl
    · cases h
  | proceed connected =>
    obtain ⟨-, h⟩ := of_when h
    split at h
    · next hconnected =>
      split at h
      · cases h
        exact (start_large_goes fun hlarge => .inl ⟨rfl, hlarge⟩).after (returns_started _)
      · cases h
        refine .on rfl rfl ?_ fun exit hexit => by cases hexit
        rw [returns_append, returns_append, returns_started, returns_started]
        rfl
    · next hconnected =>
      cases h
      refine finish_goes (.inr (.inr (.inr ⟨?_, rfl, by simp⟩))) rfl
      simpa [PushMove.leaves] using hconnected
  | batchEnd error =>
    obtain ⟨-, h⟩ := of_when h
    cases error with
    | none =>
      cases h
      exact start_large_goes fun hlarge => .inl ⟨rfl, hlarge⟩
    | some error =>
      cases h
      exact .out (.batchFailed error) (.inr (.inr (.inr ⟨rfl, rfl, by simp⟩))) rfl rfl rfl rfl
  | listen =>
    obtain ⟨-, h⟩ := of_when h
    cases h
    exact await_done_goes (hclean _ ⟨rfl, by simp⟩)
  | cancel =>
    cases h
    exact .on rfl rfl rfl fun exit hexit => hexit

end Push

/-- The pushes and the sender jobs of a process. `building` is what the router builds a manifest for:
the offer, if it is a file of a push, and the path. `failing` are the pushes that have failed and have
not cleaned up yet. -/
structure PushServing where
  table : PushTable
  sources : List SenderJobState
  nextSource : Nat
  building : Option (Option Nat × String)
  failing : List Nat

/-- What can happen: something that concerns the pushes alone, a push whose files cannot be read, the
cleanup after a failed push, a metadata request, its manifest, and the end of a sender job: `RecvAck`,
`Cancel`, a request for a chunk of a cancelled job, or the loss of the connection. -/
inductive ServeInput where
  | push (input : PushInput)
  | unreadable
  | cleanup (job : Nat)
  | metaReq (offerId : Option Nat) (path : String)
  | built (ok : Bool)
  | senderEnds (jobId : Nat)

/-- What a push does, the sender jobs that are made and removed, and the pushes that have returned. -/
inductive ServeEvent where
  | push (event : PushEvent)
  | started (jobId : Nat) (offerId : Option Nat)
  | ended (jobId : Nat)
  | returned (job : Nat)

namespace PushServing

/-- No sender job yet; their ids have the highest bit. -/
def start (offerTimeoutSecs maxSecs : Nat) : PushServing :=
  { table := PushTable.start offerTimeoutSecs maxSecs, sources := [], nextSource := 2 ^ 63,
    building := none, failing := [] }

/-- The job of a push that goes on, which is the only one that can return. -/
def movedJob : PushInput → Option Nat
  | .move job _ => some job
  | _ => none

/-- The pushes that return with an error, and those that return well, in a step of the pushes. -/
def failedJobs (input : PushInput) (events : List PushEvent) : List Nat :=
  ((Push.returns events).filter fun result => !result.isOk).filterMap fun _ => movedJob input

def doneJobs (input : PushInput) (events : List PushEvent) : List Nat :=
  ((Push.returns events).filter fun result => result.isOk).filterMap fun _ => movedJob input

/-- The file a metadata request asks for: one of a push, or what the registry of the shares has
resolved. -/
def requested (state : PushServing) : Option Nat → String → Option String
  | some offerId, path => state.table.resolvePushFile offerId path
  | none, path => some path

/-- One step. A push that fails removes its sender jobs before it returns. -/
def step : Machine PushServing ServeInput ServeEvent
  | state, .push input =>
    (state.table.step input).map fun (table, events) =>
      ({ state with table, failing := state.failing ++ failedJobs input events },
        events.map .push ++ (doneJobs input events).map .returned)
  | state, .unreadable =>
    (state.table.step .otherJob).map fun (table, _) =>
      ({ state with table, failing := state.failing ++ [state.table.nextJob] }, [])
  | state, .cleanup job =>
    if job ∈ state.failing then
      let matched := state.sources.filter fun source => source.offerId == some job
      some ({ state with
        sources := state.sources.filter fun source => !(source.offerId == some job)
        failing := state.failing.erase job },
        matched.map (fun source => .ended source.jobId) ++ [.returned job])
    else none
  | state, .metaReq offerId path =>
    match state.building, state.requested offerId path with
    | none, some resolved => some ({ state with building := some (offerId, resolved) }, [])
    | none, none => some (state, [])
    | some _, _ => none
  | state, .built ok =>
    match state.building with
    | none => none
    | some (offerId, path) =>
      if ok then
        some ({ state with
          sources := state.sources ++ [{ jobId := state.nextSource, path, offerId }]
          nextSource := state.nextSource + 1
          building := none }, [.started state.nextSource offerId])
      else some ({ state with building := none }, [])
  | state, .senderEnds jobId =>
    if state.sources.any (·.jobId == jobId) then
      some ({ state with sources := state.sources.filter fun source => !(source.jobId == jobId) },
        [.ended jobId])
    else some (state, [])

/-- The sender jobs that were made for an offer. -/
def startedFor (offer : Nat) (trace : List ServeEvent) : List Nat :=
  trace.filterMap fun event => match event with
    | .started jobId offerId => if offerId = some offer then some jobId else none
    | _ => none

/-- The sender jobs that have been removed. -/
def endedSources (trace : List ServeEvent) : List Nat :=
  trace.filterMap fun event => match event with
    | .ended jobId => some jobId
    | _ => none

/-- The pushes that have returned. -/
def returnedJobs (trace : List ServeEvent) : List Nat :=
  trace.filterMap fun event => match event with
    | .returned job => some job
    | _ => none

/-- The pushes that have returned have left nothing. -/
def Clean (trace : List ServeEvent) (state : PushServing) : Prop :=
  ∀ job ∈ returnedJobs trace,
    (∀ push, state.table.pushes job = some push → push.registered = false) ∧
      ∀ source ∈ state.sources, source.offerId ≠ some job

/-- A push with large files does not return because the offer cannot be sent, its deadline passes,
the session is gone or the small files cannot be sent; every sender job that was made for an offer
has ended when the push takes its `JobDone`; and none is made for a push that has returned. -/
def tidyGuard : Guard PushServing ServeInput ServeEvent := fun trace state input =>
  match input with
  | .push (.move job move) => ∀ push ∈ state.table.pushes job,
      (push.registered = true → move.leaves push = false) ∧
        (move = .poll → push.takesDone state.table.signals job = true →
          ∀ id ∈ startedFor job trace, id ∈ endedSources trace)
  | .built true => ∀ build ∈ state.building, ∀ offer ∈ build.1, offer ∉ returnedJobs trace
  | _ => True

instance (trace : List ServeEvent) (state : PushServing) (input : ServeInput) :
    Decidable (tidyGuard trace state input) := by
  unfold tidyGuard
  split
  · exact inferInstance
  · exact inferInstance
  · exact inferInstance

end PushServing

/-- `has_large`. -/
def Push.hasLarge (push : Push) : Bool :=
  !(largeFiles push.files).isEmpty

/-- The large files of a push are in `push_jobs` until it returns, and afterwards if its exit keeps
them. -/
structure Push.Regular (push : Push) : Prop where
  running : (∀ exit, push.phase ≠ .finished exit) → push.registered = push.hasLarge
  finished : ∀ exit, push.phase = .finished exit → push.registered = (exit.keeps && push.hasLarge)

/-- The ids of the pushes have been handed out, and each push is regular. -/
structure PushTable.Ok (table : PushTable) : Prop where
  fresh : ∀ job, table.nextJob ≤ job → table.pushes job = none
  regular : ∀ job push, table.pushes job = some push → push.Regular

/-- There is a push with large files under an id. -/
def PushTable.HasLarge (table : PushTable) (job : Nat) : Prop :=
  ∃ push, table.pushes job = some push ∧ push.hasLarge = true

/-- An id has been handed out, and no push runs under it. -/
def PushTable.Stopped (table : PushTable) (job : Nat) : Prop :=
  job < table.nextJob ∧
    ∀ push, table.pushes job = some push → ∃ exit, push.phase = .finished exit

namespace PushTable

variable {table next : PushTable} {input : PushInput} {events : List PushEvent} {job : Nat}
  {push : Push} {move : PushMove} {result : Push × List PushEvent} {exit : PushExit}

/-- A push that has returned does not go on. -/
theorem advance_finished (h : table.advance job push move = some result)
    (hphase : push.phase = .finished exit) :
    result.1.phase = .finished exit ∧ result.1.registered = push.registered ∧
      result.1.files = push.files ∧ Push.returns result.2 = [] := by
  cases move with
  | cancel =>
    cases h
    exact ⟨hphase, rfl, rfl, rfl⟩
  | offer | subscribe | poll | expire | proceed | batchEnd | listen =>
    simp [advance, hphase] at h

/-- What a step of the pushes does: one of them goes on, one starts, or none changes. -/
theorem step_cases (h : table.step input = some (next, events)) :
    (∃ job move push result, input = .move job move ∧ table.pushes job = some push ∧
      table.advance job push move = some result ∧ next = table.put job result.1 ∧
      events = result.2) ∨
    (∃ push : Push, push.Regular ∧ push.phase = .prepared ∧
      next.pushes = Function.update table.pushes table.nextJob (some push) ∧
      next.nextJob = table.nextJob + 1 ∧ events = []) ∨
    (next.pushes = table.pushes ∧ table.nextJob ≤ next.nextJob ∧ events = []) := by
  cases input with
  | pushFiles peer files =>
    cases h
    refine .inr (.inl ⟨_, ⟨fun _ => rfl, fun exit hexit => ?_⟩, rfl, rfl, rfl, rfl⟩)
    cases hexit
  | otherJob =>
    cases h
    exact .inr (.inr ⟨rfl, Nat.le_succ _, rfl⟩)
  | move job move =>
    obtain ⟨push, hpush, hmap⟩ := Option.bind_eq_some_iff.mp h
    obtain ⟨result, hresult, hnext⟩ := Option.map_eq_some_iff.mp hmap
    cases hnext
    exact .inl ⟨job, move, push, result, rfl, hpush, hresult, rfl, rfl⟩
  | signal signal =>
    simp only [step] at h
    obtain ⟨-, h⟩ := of_when h
    cases h
    exact .inr (.inr ⟨rfl, Nat.le_refl _, rfl⟩)
  | setOfferTimeout secs =>
    cases h
    exact .inr (.inr ⟨rfl, Nat.le_refl _, rfl⟩)
  | tick secs =>
    cases h
    exact .inr (.inr ⟨rfl, Nat.le_refl _, rfl⟩)

/-- A push stays regular. -/
theorem regular_advance (hregular : push.Regular) (h : table.advance job push move = some result) :
    result.1.Regular := by
  by_cases hfinished : ∃ exit, push.phase = .finished exit
  · obtain ⟨exit, hphase⟩ := hfinished
    obtain ⟨hnext, hregistered, hfiles, -⟩ := advance_finished h hphase
    have hlarge : result.1.hasLarge = push.hasLarge := by
      unfold Push.hasLarge
      rw [hfiles]
    refine ⟨fun hrunning => absurd hnext (hrunning exit), fun other hother => ?_⟩
    rw [hnext] at hother
    cases hother
    rw [hregistered, hlarge]
    exact hregular.finished exit hphase
  · have hrunning : ∀ exit, push.phase ≠ .finished exit := fun exit hphase => hfinished ⟨exit, hphase⟩
    have hbefore := hregular.running hrunning
    cases Push.advance_goes h with
    | on hfiles hregistered hreturns hphase =>
      have hlarge : result.1.hasLarge = push.hasLarge := by
        unfold Push.hasLarge
        rw [hfiles]
      refine ⟨fun _ => ?_, fun exit hexit => absurd (hphase exit hexit) (hrunning exit)⟩
      rw [hregistered, hlarge, hbefore]
    | out exit hexit hfiles hregistered hreturns hphase =>
      have hlarge : result.1.hasLarge = push.hasLarge := by
        unfold Push.hasLarge
        rw [hfiles]
      refine ⟨fun hnext => absurd hphase (hnext exit), fun other hother => ?_⟩
      rw [hphase] at hother
      cases hother
      rw [hregistered, hlarge, hbefore]

variable {other : Nat}

/-- The push of another job is left alone. -/
theorem put_other (hother : other ≠ job) : (table.put job push).pushes other = table.pushes other :=
  Function.update_of_ne hother _ _

theorem Ok.step (hok : table.Ok) (h : table.step input = some (next, events)) : next.Ok := by
  rcases step_cases h with ⟨job, move, push, result, rfl, hpush, hresult, rfl, rfl⟩ |
    ⟨push, hregular, -, hpushes, hjob, -⟩ | ⟨hpushes, hjob, -⟩
  · refine ⟨fun other hother => ?_, fun other found hfound => ?_⟩
    · have hne : other ≠ job := by
        rintro rfl
        rw [hok.fresh other hother] at hpush
        cases hpush
      rw [put_other hne]
      exact hok.fresh other hother
    · by_cases hsame : other = job
      · subst hsame
        rw [put_self] at hfound
        cases hfound
        exact regular_advance (hok.regular other push hpush) hresult
      · rw [put_other hsame] at hfound
        exact hok.regular other found hfound
  · refine ⟨fun other hother => ?_, fun other found hfound => ?_⟩
    · rw [hpushes, Function.update_of_ne (by omega)]
      exact hok.fresh other (by omega)
    · rw [hpushes] at hfound
      by_cases hsame : other = table.nextJob
      · subst hsame
        rw [Function.update_self] at hfound
        cases hfound
        exact hregular
      · rw [Function.update_of_ne hsame] at hfound
        exact hok.regular other found hfound
  · refine ⟨fun other hother => ?_, fun other found hfound => ?_⟩
    · rw [hpushes]
      exact hok.fresh other (by omega)
    · rw [hpushes] at hfound
      exact hok.regular other found hfound

/-- The files of a push stay. -/
theorem HasLarge.step (hlarge : table.HasLarge other) (hok : table.Ok)
    (h : table.step input = some (next, events)) : next.HasLarge other := by
  obtain ⟨found, hfound, hfiles⟩ := hlarge
  rcases step_cases h with ⟨job, move, push, result, rfl, hpush, hresult, rfl, rfl⟩ |
    ⟨push, -, -, hpushes, -, -⟩ | ⟨hpushes, -, -⟩
  · by_cases hsame : other = job
    · subst hsame
      rw [hpush] at hfound
      cases hfound
      refine ⟨result.1, put_self, ?_⟩
      have hkept : result.1.files = found.files := by
        cases Push.advance_goes hresult with
        | on hfiles => exact hfiles
        | out exit hexit hfiles => exact hfiles
      unfold Push.hasLarge
      rw [hkept]
      exact hfiles
    · exact ⟨found, by rw [put_other hsame]; exact hfound, hfiles⟩
  · have hne : other ≠ table.nextJob := by
      rintro rfl
      rw [hok.fresh _ (Nat.le_refl _)] at hfound
      cases hfound
    exact ⟨found, by rw [hpushes, Function.update_of_ne hne]; exact hfound, hfiles⟩
  · exact ⟨found, by rw [hpushes]; exact hfound, hfiles⟩

/-- A job that has stopped stays so. -/
theorem Stopped.step (hstopped : table.Stopped other) (h : table.step input = some (next, events)) :
    next.Stopped other := by
  obtain ⟨hlt, hfinished⟩ := hstopped
  rcases step_cases h with ⟨job, move, push, result, rfl, hpush, hresult, rfl, rfl⟩ |
    ⟨push, -, -, hpushes, hjob, -⟩ | ⟨hpushes, hjob, -⟩
  · refine ⟨hlt, fun found hfound => ?_⟩
    by_cases hsame : other = job
    · subst hsame
      rw [put_self] at hfound
      cases hfound
      obtain ⟨exit, hphase⟩ := hfinished push hpush
      exact ⟨exit, (advance_finished hresult hphase).1⟩
    · rw [put_other hsame] at hfound
      exact hfinished found hfound
  · refine ⟨by omega, fun found hfound => ?_⟩
    rw [hpushes, Function.update_of_ne (by omega)] at hfound
    exact hfinished found hfound
  · refine ⟨by omega, fun found hfound => ?_⟩
    rw [hpushes] at hfound
    exact hfinished found hfound

end PushTable

namespace PushServing

section Histories

variable {offer job : Nat} {before after : List ServeEvent} {events : List PushEvent}
  {jobs : List Nat} {sources : List SenderJobState}

@[simp] theorem started_for_append :
    startedFor offer (before ++ after) = startedFor offer before ++ startedFor offer after :=
  List.filterMap_append

@[simp] theorem ended_append :
    endedSources (before ++ after) = endedSources before ++ endedSources after :=
  List.filterMap_append

@[simp] theorem returned_append :
    returnedJobs (before ++ after) = returnedJobs before ++ returnedJobs after :=
  List.filterMap_append

/-- What a step of the pushes adds: the pushes that return. -/
theorem ended_pushes : endedSources (events.map ServeEvent.push ++ jobs.map .returned) = [] := by
  refine List.filterMap_eq_nil_iff.mpr fun event hmem => ?_
  rcases List.mem_append.mp hmem with hmem | hmem
  · obtain ⟨event, -, rfl⟩ := List.mem_map.mp hmem
    rfl
  · obtain ⟨job, -, rfl⟩ := List.mem_map.mp hmem
    rfl

theorem returned_pushes :
    returnedJobs (events.map ServeEvent.push ++ jobs.map .returned) = jobs := by
  have hpushes : returnedJobs (events.map ServeEvent.push) = [] := by
    refine List.filterMap_eq_nil_iff.mpr fun event hmem => ?_
    obtain ⟨event, -, rfl⟩ := List.mem_map.mp hmem
    rfl
  rw [returned_append, hpushes, List.nil_append]
  unfold returnedJobs
  rw [List.filterMap_map]
  exact List.filterMap_some

/-- What a cleanup adds: the sender jobs that end, and the push. -/
theorem ended_cleanup :
    endedSources (sources.map (fun source => .ended source.jobId) ++ [.returned job]) =
      sources.map SenderJobState.jobId := by
  rw [ended_append]
  unfold endedSources
  rw [List.filterMap_map]
  show sources.filterMap (fun source => some source.jobId) ++ [] = _
  rw [List.append_nil, List.filterMap_eq_map']

theorem returned_cleanup :
    returnedJobs (sources.map (fun source => .ended source.jobId) ++ [.returned job]) = [job] := by
  have hends : returnedJobs (sources.map fun source => .ended source.jobId) = [] := by
    refine List.filterMap_eq_nil_iff.mpr fun event hmem => ?_
    obtain ⟨source, -, rfl⟩ := List.mem_map.mp hmem
    rfl
  rw [returned_append, hends]
  rfl

end Histories

section Steps

variable {state next : PushServing} {input : ServeInput} {trace emitted : List ServeEvent}
  {table after : PushTable} {moved : PushInput} {events : List PushEvent} {job : Nat}

/-- `Ok` is returned where all files were skipped and where the `JobDone` was taken. -/
theorem ok_exits {exit : PushExit} (h : exit.result.isOk = true) :
    exit = .allSkipped ∨ exit = .done := by
  cases exit with
  | allSkipped => exact .inl rfl
  | done => exact .inr rfl
  | denied reason =>
    cases reason with
    | none => cases h
    | some reason =>
      cases reason with
      | timeout | denied => cases h
  | sendFailed | cancelled | timeout | sessionNotFound | batchFailed | doneCancelled | failed
    | doneTimeout => cases h

/-- A push that returns is the one that goes on. -/
theorem returning_cases (h : table.step moved = some (after, events))
    (hjob : job ∈ failedJobs moved events ∨ job ∈ doneJobs moved events) :
    ∃ move push exit, ∃ result : Push × List PushEvent, moved = .move job move ∧ table.pushes job = some push ∧
      after = table.put job result.1 ∧ push.MayExit table.signals job move exit ∧
      result.1.phase = .finished exit ∧
      result.1.registered = (exit.keeps && push.registered) ∧
      (job ∈ doneJobs moved events → exit.result.isOk = true) := by
  rcases PushTable.step_cases h with ⟨other, move, push, result, rfl, hpush, hresult, rfl, rfl⟩ |
    ⟨push, -, -, -, -, rfl⟩ | ⟨-, -, rfl⟩
  · cases Push.advance_goes hresult with
    | on hfiles hregistered hreturns hphase =>
      unfold failedJobs doneJobs at hjob
      rw [hreturns] at hjob
      rcases hjob with hjob | hjob
      · cases hjob
      · cases hjob
    | out exit hexit hfiles hregistered hreturns hphase =>
      have hsame : job = other := by
        unfold failedJobs doneJobs at hjob
        rw [hreturns] at hjob
        rcases hjob with hjob | hjob
        · obtain ⟨-, -, hmoved⟩ := List.mem_filterMap.mp hjob
          exact (Option.some.inj hmoved).symm
        · obtain ⟨-, -, hmoved⟩ := List.mem_filterMap.mp hjob
          exact (Option.some.inj hmoved).symm
      subst hsame
      refine ⟨move, push, exit, result, rfl, hpush, rfl, hexit, hphase, hregistered, fun hdone => ?_⟩
      unfold doneJobs at hdone
      rw [hreturns] at hdone
      obtain ⟨found, hfound, -⟩ := List.mem_filterMap.mp hdone
      obtain ⟨hmem, hok⟩ := List.mem_filter.mp hfound
      rw [← List.mem_singleton.mp hmem]
      exact hok
  · rcases hjob with hjob | hjob
    · cases hjob
    · cases hjob
  · rcases hjob with hjob | hjob
    · cases hjob
    · cases hjob

end Steps

/-- What holds in every run: only a push with large files has sender jobs, each of them has been
started and has not ended, and no push runs under the id of one that has returned or failed. -/
structure Served (trace : List ServeEvent) (state : PushServing) : Prop where
  table : state.table.Ok
  stopped : ∀ job, job ∈ returnedJobs trace ∨ job ∈ state.failing → state.table.Stopped job
  ended : ∀ id ∈ endedSources trace, id < state.nextSource
  nodup : (state.sources.map SenderJobState.jobId).Nodup
  live : ∀ source ∈ state.sources,
    source.jobId < state.nextSource ∧ source.jobId ∉ endedSources trace
  offered : ∀ source ∈ state.sources, ∀ offer, source.offerId = some offer →
    state.table.HasLarge offer ∧ source.jobId ∈ startedFor offer trace
  building : ∀ offer path, state.building = some (some offer, path) → state.table.HasLarge offer

variable {inputs : List ServeInput} {offerTimeoutSecs maxSecs : Nat}

section Invariant

variable {state next : PushServing} {input : ServeInput} {trace emitted : List ServeEvent}

theorem served_start (offerTimeoutSecs maxSecs : Nat) :
    Served [] (start offerTimeoutSecs maxSecs) where
  table := ⟨fun job _ => rfl, fun job push hpush => by cases hpush⟩
  stopped job hjob := by
    rcases hjob with hjob | hjob
    · cases hjob
    · cases hjob
  ended id hid := by cases hid
  nodup := List.nodup_nil
  live source hsource := by cases hsource
  offered source hsource := by cases hsource
  building offer path hbuilding := by cases hbuilding

/-- Only a push with large files has files to ask for. -/
theorem resolved_large {table : PushTable} {offer : Nat} {path resolved : String} (hok : table.Ok)
    (h : table.resolvePushFile offer path = some resolved) : table.HasLarge offer := by
  unfold PushTable.resolvePushFile at h
  obtain ⟨push, hpush, hfile⟩ := Option.bind_eq_some_iff.mp h
  obtain ⟨hregistered, hfile⟩ := of_when hfile
  refine ⟨push, hpush, ?_⟩
  have hregular := hok.regular offer push hpush
  by_cases hfinished : ∃ exit, push.phase = .finished exit
  · obtain ⟨exit, hphase⟩ := hfinished
    rw [hregular.finished exit hphase] at hregistered
    exact (Bool.and_eq_true _ _ ▸ hregistered).2
  · rw [← hregular.running fun exit hphase => hfinished ⟨exit, hphase⟩]
    exact hregistered

theorem Served.step (h : Served trace state)
    (hnext : PushServing.step state input = some (next, emitted)) :
    Served (trace ++ emitted) next := by
  cases input with simp only [PushServing.step] at hnext
  | push moved =>
    obtain ⟨⟨table, events⟩, htable, hresult⟩ := Option.map_eq_some_iff.mp hnext
    cases hresult
    refine ⟨h.table.step htable, fun job hjob => ?_, ?_, h.nodup, ?_, ?_, ?_⟩
    · have hcases : (job ∈ returnedJobs trace ∨ job ∈ state.failing) ∨
          (job ∈ failedJobs moved events ∨ job ∈ doneJobs moved events) := by
        rw [returned_append, returned_pushes] at hjob
        rcases hjob with hjob | hjob
        · rcases List.mem_append.mp hjob with hjob | hjob
          · exact .inl (.inl hjob)
          · exact .inr (.inr hjob)
        · rcases List.mem_append.mp hjob with hjob | hjob
          · exact .inl (.inr hjob)
          · exact .inr (.inl hjob)
      rcases hcases with hold | hnew
      · exact (h.stopped job hold).step htable
      · obtain ⟨move, push, exit, result, rfl, hpush, rfl, -, hphase, -⟩ :=
          returning_cases htable hnew
        refine ⟨?_, fun found hfound => ?_⟩
        · by_contra hge
          rw [h.table.fresh job (Nat.le_of_not_lt hge)] at hpush
          cases hpush
        · have hsame : result.1 = found := Option.some.inj (PushTable.put_self.symm.trans hfound)
          exact ⟨exit, hsame ▸ hphase⟩
    · rw [ended_append, ended_pushes, List.append_nil]
      exact h.ended
    · rw [ended_append, ended_pushes, List.append_nil]
      exact h.live
    · intro source hsource offer hoffer
      obtain ⟨hlarge, hstarted⟩ := h.offered source hsource offer hoffer
      rw [started_for_append]
      exact ⟨hlarge.step h.table htable, List.mem_append_left _ hstarted⟩
    · exact fun offer path hbuilding => (h.building offer path hbuilding).step h.table htable
  | unreadable =>
    have htable : state.table.step .otherJob =
        some ({ state.table with nextJob := state.table.nextJob + 1 }, []) := rfl
    cases hnext
    rw [List.append_nil]
    refine ⟨h.table.step htable, fun job hjob => ?_, h.ended, h.nodup, h.live, ?_, ?_⟩
    · have hcases : (job ∈ returnedJobs trace ∨ job ∈ state.failing) ∨ job = state.table.nextJob := by
        rcases hjob with hjob | hjob
        · exact .inl (.inl hjob)
        · rcases List.mem_append.mp hjob with hjob | hjob
          · exact .inl (.inr hjob)
          · exact .inr (List.mem_singleton.mp hjob)
      rcases hcases with hold | rfl
      · exact (h.stopped job hold).step htable
      · refine ⟨Nat.lt_succ_self _, fun push hpush => ?_⟩
        have hnone := h.table.fresh state.table.nextJob (Nat.le_refl _)
        rw [show state.table.pushes state.table.nextJob = some push from hpush] at hnone
        cases hnone
    · intro source hsource offer hoffer
      obtain ⟨hlarge, hstarted⟩ := h.offered source hsource offer hoffer
      exact ⟨hlarge.step h.table htable, hstarted⟩
    · exact fun offer path hbuilding => (h.building offer path hbuilding).step h.table htable
  | cleanup job =>
    obtain ⟨hfailing, hnext⟩ := of_when hnext
    cases hnext
    refine ⟨h.table, fun other hother => ?_, ?_, ?_, ?_, ?_, h.building⟩
    · rw [returned_append, returned_cleanup] at hother
      refine h.stopped other ?_
      rcases hother with hother | hother
      · rcases List.mem_append.mp hother with hother | hother
        · exact .inl hother
        · rw [List.mem_singleton.mp hother]
          exact .inr hfailing
      · exact .inr (List.mem_of_mem_erase hother)
    · rw [ended_append, ended_cleanup]
      intro id hid
      rcases List.mem_append.mp hid with hid | hid
      · exact h.ended id hid
      · obtain ⟨source, hsource, rfl⟩ := List.mem_map.mp hid
        exact (h.live source (List.mem_of_mem_filter hsource)).1
    · exact h.nodup.sublist (List.filter_sublist.map _)
    · intro source hsource
      obtain ⟨hmem, hkept⟩ := List.mem_filter.mp hsource
      obtain ⟨hlt, hnot⟩ := h.live source hmem
      refine ⟨hlt, ?_⟩
      rw [ended_append, ended_cleanup]
      intro hid
      rcases List.mem_append.mp hid with hid | hid
      · exact hnot hid
      · -- an id belongs to one sender job, which is either removed or kept
        obtain ⟨other, hother, hsame⟩ := List.mem_map.mp hid
        obtain ⟨hothermem, hremoved⟩ := List.mem_filter.mp hother
        have heq : other = source := List.inj_on_of_nodup_map h.nodup hothermem hmem hsame
        rw [heq] at hremoved
        rw [hremoved] at hkept
        cases hkept
    · intro source hsource offer hoffer
      obtain ⟨hlarge, hstarted⟩ := h.offered source (List.mem_of_mem_filter hsource) offer hoffer
      rw [started_for_append]
      exact ⟨hlarge, List.mem_append_left _ hstarted⟩
  | metaReq offerId path =>
    split at hnext
    · next resolved hidle hresolved =>
      cases hnext
      rw [List.append_nil]
      refine { h with building := fun offer found hfound => ?_ }
      cases hfound
      exact resolved_large h.table hresolved
    · cases hnext
      rw [List.append_nil]
      exact h
    · cases hnext
  | built ok =>
    split at hnext
    · cases hnext
    · next offerId path hbuilding =>
      split at hnext
      · cases hnext
        have hended : endedSources (trace ++ [.started state.nextSource offerId]) =
            endedSources trace := by
          rw [ended_append]
          exact List.append_nil _
        refine ⟨h.table, fun job hjob => ?_, ?_, ?_, ?_, ?_, fun offer found hfound => ?_⟩
        · rw [returned_append] at hjob
          refine h.stopped job (hjob.imp_left fun hjob => ?_)
          rcases List.mem_append.mp hjob with hjob | hjob
          · exact hjob
          · cases hjob
        · rw [hended]
          exact fun id hid => Nat.lt_succ_of_lt (h.ended id hid)
        · rw [List.map_append]
          refine List.nodup_append.mpr ⟨h.nodup, List.pairwise_singleton _ _, ?_⟩
          rintro id hid other hother rfl
          obtain ⟨source, hsource, rfl⟩ := List.mem_map.mp hid
          have hlt := (h.live source hsource).1
          rw [List.mem_singleton.mp hother] at hlt
          exact Nat.lt_irrefl _ hlt
        · intro source hsource
          rw [hended]
          rcases List.mem_append.mp hsource with hsource | hsource
          · exact ⟨Nat.lt_succ_of_lt (h.live source hsource).1, (h.live source hsource).2⟩
          · rw [List.mem_singleton.mp hsource]
            exact ⟨Nat.lt_succ_self _, fun hid => Nat.lt_irrefl _ (h.ended _ hid)⟩
        · intro source hsource offer hoffer
          rw [started_for_append]
          rcases List.mem_append.mp hsource with hsource | hsource
          · obtain ⟨hlarge, hstarted⟩ := h.offered source hsource offer hoffer
            exact ⟨hlarge, List.mem_append_left _ hstarted⟩
          · rw [List.mem_singleton.mp hsource] at hoffer ⊢
            have hoffer : offerId = some offer := hoffer
            refine ⟨h.building offer path (hoffer ▸ hbuilding), List.mem_append_right _ ?_⟩
            unfold startedFor
            simp [hoffer]
        · cases hfound
      · cases hnext
        rw [List.append_nil]
        exact { h with building := fun offer found hfound => by cases hfound }
  | senderEnds jobId =>
    split at hnext
    · next hany =>
      cases hnext
      obtain ⟨found, hfound, hid⟩ := List.any_eq_true.mp hany
      have hended : endedSources (trace ++ [.ended jobId]) = endedSources trace ++ [jobId] :=
        ended_append
      refine ⟨h.table, fun job hjob => ?_, ?_, h.nodup.sublist (List.filter_sublist.map _), ?_, ?_,
        h.building⟩
      · rw [returned_append] at hjob
        refine h.stopped job (hjob.imp_left fun hjob => ?_)
        rcases List.mem_append.mp hjob with hjob | hjob
        · exact hjob
        · cases hjob
      · rw [hended]
        intro id hmem
        rcases List.mem_append.mp hmem with hmem | hmem
        · exact h.ended id hmem
        · rw [List.mem_singleton.mp hmem, ← beq_iff_eq.mp hid]
          exact (h.live found hfound).1
      · intro source hsource
        obtain ⟨hmem, hkept⟩ := List.mem_filter.mp hsource
        obtain ⟨hlt, hnot⟩ := h.live source hmem
        refine ⟨hlt, ?_⟩
        rw [hended]
        intro hin
        rcases List.mem_append.mp hin with hin | hin
        · exact hnot hin
        · rw [List.mem_singleton.mp hin] at hkept
          simp at hkept
      · intro source hsource offer hoffer
        obtain ⟨hlarge, hstarted⟩ := h.offered source (List.mem_of_mem_filter hsource) offer hoffer
        rw [started_for_append]
        exact ⟨hlarge, List.mem_append_left _ hstarted⟩
    · cases hnext
      rw [List.append_nil]
      exact h

theorem served_run {guard : Guard PushServing ServeInput ServeEvent}
    (hexec : Exec PushServing.step guard (start offerTimeoutSecs maxSecs) inputs trace state) :
    Served trace state := by
  induction hexec with
  | start => exact served_start _ _
  | step _ _ hnext ih => exact ih.step hnext

end Invariant

/-- What holds besides where the guard does: a push that has returned or failed is not in
`push_jobs`, and no sender job is left of one that has returned. -/
structure Tidied (trace : List ServeEvent) (state : PushServing) : Prop where
  unregistered : ∀ job push, state.table.pushes job = some push →
    (∃ exit, push.phase = .finished exit) → push.registered = false
  clean : ∀ job ∈ returnedJobs trace, ∀ source ∈ state.sources, source.offerId ≠ some job

section Guarded

variable {state next : PushServing} {input : ServeInput} {trace emitted : List ServeEvent}

/-- A push without large files is never in `push_jobs`. -/
theorem unregistered_small {push : Push} (h : push.Regular) (hlarge : push.hasLarge = false) :
    push.registered = false := by
  by_cases hfinished : ∃ exit, push.phase = .finished exit
  · obtain ⟨exit, hphase⟩ := hfinished
    rw [h.finished exit hphase, hlarge, Bool.and_false]
  · rw [h.running fun exit hphase => hfinished ⟨exit, hphase⟩, hlarge]

/-- A push that goes on as the guard says and returns is not in `push_jobs` any more. -/
theorem unregistered_exit {signals : Broadcast Signal} {job : Nat} {push : Push} {move : PushMove}
    {exit : PushExit} (hregular : push.Regular) (hexit : push.MayExit signals job move exit)
    (hguard : push.registered = true → move.leaves push = false) :
    (exit.keeps && push.registered) = false := by
  cases hregistered : push.registered with
  | false => exact Bool.and_false _
  | true =>
    rw [Bool.and_true]
    rcases hexit with ⟨rfl, hlarge⟩ | ⟨rfl, -⟩ | ⟨hclean, -⟩ | ⟨hleaves, -, -⟩
    · have hsmall : push.hasLarge = false := by
        unfold Push.hasLarge
        rw [hlarge]
        rfl
      rw [unregistered_small hregular hsmall] at hregistered
      cases hregistered
    · rfl
    · exact hclean
    · rw [hguard hregistered] at hleaves
      cases hleaves

theorem Tidied.step (h : Tidied trace state) (hserved : Served trace state)
    (hguard : tidyGuard trace state input)
    (hnext : PushServing.step state input = some (next, emitted)) :
    Tidied (trace ++ emitted) next := by
  cases input with simp only [PushServing.step] at hnext
  | push moved =>
    obtain ⟨⟨table, events⟩, htable, hresult⟩ := Option.map_eq_some_iff.mp hnext
    cases hresult
    refine ⟨fun job push hpush hfinished => ?_, fun job hjob source hsource hoffer => ?_⟩
    · rcases PushTable.step_cases htable with
        ⟨other, move, before, result, rfl, hbefore, hresult, rfl, rfl⟩ |
        ⟨fresh, -, hprepared, hpushes, -, rfl⟩ | ⟨hpushes, -, rfl⟩
      · by_cases hsame : job = other
        · subst hsame
          have hpush : result.1 = push := Option.some.inj (PushTable.put_self.symm.trans hpush)
          subst hpush
          obtain ⟨exit, hphase⟩ := hfinished
          cases Push.advance_goes hresult with
          | on hfiles hregistered hreturns hrunning =>
            rw [hregistered]
            exact h.unregistered job before hbefore ⟨exit, hrunning exit hphase⟩
          | out exit hexit hfiles hregistered hreturns hfinal =>
            rw [hregistered]
            exact unregistered_exit (hserved.table.regular job before hbefore) hexit
              (hguard before hbefore).1
        · have hpush : state.table.pushes job = some push :=
            (PushTable.put_other hsame).symm.trans hpush
          exact h.unregistered job push hpush hfinished
      · have hpush : table.pushes job = some push := hpush
        rw [hpushes] at hpush
        by_cases hsame : job = state.table.nextJob
        · subst hsame
          rw [Function.update_self] at hpush
          cases hpush
          obtain ⟨exit, hphase⟩ := hfinished
          rw [hprepared] at hphase
          cases hphase
        · rw [Function.update_of_ne hsame] at hpush
          exact h.unregistered job push hpush hfinished
      · have hpush : table.pushes job = some push := hpush
        rw [hpushes] at hpush
        exact h.unregistered job push hpush hfinished
    · rw [returned_append, returned_pushes] at hjob
      rcases List.mem_append.mp hjob with hjob | hjob
      · exact h.clean job hjob source hsource hoffer
      · obtain ⟨move, push, exit, result, rfl, hpush, -, hexit, -, -, hok⟩ :=
          returning_cases htable (.inr hjob)
        obtain ⟨⟨found, hfound, hlarge⟩, hstarted⟩ := hserved.offered source hsource job hoffer
        rw [hpush] at hfound
        cases hfound
        have hended := (hserved.live source hsource).2
        rcases hexit with ⟨rfl, hnone⟩ | ⟨rfl, rfl, htakes⟩ | ⟨hkeeps, hnot⟩ | ⟨-, hkeeps, hnot⟩
        · unfold Push.hasLarge at hlarge
          rw [hnone] at hlarge
          cases hlarge
        · exact hended ((hguard push hpush).2 rfl htakes _ hstarted)
        · rcases ok_exits (hok hjob) with rfl | rfl
          · cases hkeeps
          · exact hnot rfl
        · rcases ok_exits (hok hjob) with rfl | rfl
          · exact hnot rfl
          · cases hkeeps
  | unreadable =>
    cases hnext
    rw [List.append_nil]
    exact ⟨h.unregistered, h.clean⟩
  | cleanup job =>
    obtain ⟨hfailing, hnext⟩ := of_when hnext
    cases hnext
    refine ⟨h.unregistered, fun other hother source hsource => ?_⟩
    obtain ⟨hmem, hkept⟩ := List.mem_filter.mp hsource
    rw [returned_append, returned_cleanup] at hother
    rcases List.mem_append.mp hother with hother | hother
    · exact h.clean other hother source hmem
    · rw [List.mem_singleton.mp hother]
      simpa using hkept
  | metaReq offerId path =>
    split at hnext
    · cases hnext
      rw [List.append_nil]
      exact ⟨h.unregistered, h.clean⟩
    · cases hnext
      rw [List.append_nil]
      exact h
    · cases hnext
  | built ok =>
    split at hnext
    · cases hnext
    · next offerId path hbuilding =>
      split at hnext
      · next hok =>
        cases hnext
        subst hok
        have hreturned : returnedJobs (trace ++ [.started state.nextSource offerId]) =
            returnedJobs trace := by
          rw [returned_append]
          exact List.append_nil _
        refine ⟨h.unregistered, fun job hjob source hsource => ?_⟩
        rw [hreturned] at hjob
        rcases List.mem_append.mp hsource with hsource | hsource
        · exact h.clean job hjob source hsource
        · rw [List.mem_singleton.mp hsource]
          intro hoffer
          exact hguard _ hbuilding job hoffer hjob
      · cases hnext
        rw [List.append_nil]
        exact ⟨h.unregistered, h.clean⟩
  | senderEnds jobId =>
    split at hnext
    · cases hnext
      have hreturned : returnedJobs (trace ++ [.ended jobId]) = returnedJobs trace := by
        rw [returned_append]
        exact List.append_nil _
      refine ⟨h.unregistered, fun job hjob source hsource => ?_⟩
      rw [hreturned] at hjob
      exact h.clean job hjob source (List.mem_of_mem_filter hsource)
    · cases hnext
      rw [List.append_nil]
      exact h

theorem tidied_run
    (hexec : Exec PushServing.step tidyGuard (start offerTimeoutSecs maxSecs) inputs trace state) :
    Tidied trace state := by
  induction hexec with
  | start =>
    refine ⟨fun job push hpush => ?_, fun job hjob => ?_⟩
    · cases hpush
    · cases hjob
  | step hbefore hguard hnext ih => exact ih.step (served_run hbefore) hguard hnext

/-- In a run that the guard admits, a push leaves nothing. -/
theorem clean_run
    (hexec : Exec PushServing.step tidyGuard (start offerTimeoutSecs maxSecs) inputs trace state) :
    Clean trace state := by
  have hserved := served_run hexec
  have htidied := tidied_run hexec
  refine fun job hjob => ⟨fun push hpush => ?_, htidied.clean job hjob⟩
  exact htidied.unregistered job push hpush ((hserved.stopped job (.inl hjob)).2 push hpush)

end Guarded

end PushServing

/-- Where `start_pull_parts` is: before its control is registered, in the loop or after it, or it has
returned without a control. -/
inductive PullStage where
  | preparing
  | running (task : PullTask)
  | left (result : Except EngineError Unit)

/-- A pull and the entry of `task_controls` under its job id: `others` if another task has put it
there. -/
structure PullSlot where
  stage : PullStage
  others : Bool

/-- What can happen: the pull returns before its control is registered, the control is registered,
the pull goes on, and other tasks put an entry under its job id or take it out. -/
inductive SlotInput where
  | early (result : Except EngineError Unit)
  | register (disk : Disk) (writer : PartWriter)
  | task (input : PullInput)
  | othersInsert
  | othersRemove

/-- Another task registers its control under the job id. -/
inductive SlotEvent where
  | registered
deriving DecidableEq

namespace PullSlot

variable (hash : List UInt8 → String)

/-- Before the pull. -/
def start : PullSlot :=
  { stage := .preparing, others := false }

/-- `task_controls` has the entry of the pull. -/
def own (slot : PullSlot) : Bool :=
  match slot.stage with
  | .running task => task.registered
  | _ => false

/-- `task_controls` has an entry under the job id. -/
def entry (slot : PullSlot) : Bool :=
  slot.others || slot.own

/-- The pull has returned. -/
def Returned (slot : PullSlot) : Prop :=
  match slot.stage with
  | .preparing => False
  | .running task => ¬ task.Alive
  | .left _ => True

/-- Whether a step of the pull that ends it goes past `remove_task_control`. -/
def removesControl : PullInput → Bool
  | .next .. | .finish _ => true
  | _ => false

/-- The own entry is replaced or taken out. -/
def displace : PullStage → PullStage
  | .running task => .running { task with registered := false }
  | stage => stage

/-- One step. -/
def step : Machine PullSlot SlotInput SlotEvent
  | slot, .early result =>
    match slot.stage with
    | .preparing => some ({ slot with stage := .left result }, [])
    | _ => none
  | slot, .register disk writer =>
    match slot.stage with
    | .preparing => some ({ stage := .running (PullTask.start disk writer), others := false }, [])
    | _ => none
  | slot, .task input =>
    match slot.stage with
    | .running task =>
      (PullTask.step hash task input).map fun (next, _) =>
        if task.Alive ∧ ¬ next.Alive then
          ({ stage := .running next, others := slot.others && !removesControl input }, [])
        else ({ slot with stage := .running next }, [])
    | _ => none
  | slot, .othersInsert => some ({ stage := displace slot.stage, others := true }, [.registered])
  | slot, .othersRemove => some ({ stage := displace slot.stage, others := false }, [])

/-- A pull that has returned has left no entry, and there is none under its job id if no other task
has registered its control there. -/
def Clean (trace : List SlotEvent) (slot : PullSlot) : Prop :=
  slot.Returned → slot.own = false ∧ (.registered ∉ trace → slot.entry = false)

/-- The batches arrive. -/
def arrivalGuard : Guard PullSlot SlotInput SlotEvent := fun _ slot input =>
  match slot.stage, input with
  | .running task, .task (.received arrivals _) => PullTask.BatchArrives hash task arrivals
  | _, _ => True

instance (trace : List SlotEvent) (slot : PullSlot) (input : SlotInput) :
    Decidable (arrivalGuard hash trace slot input) := by
  unfold arrivalGuard
  split
  · exact inferInstance
  · exact inferInstance

/-- A pull that has returned has left no entry, and an entry that is not its own is that of a task
that has registered its control. -/
structure Tidied (trace : List SlotEvent) (slot : PullSlot) : Prop where
  own : slot.Returned → slot.own = false
  others : slot.others = true → .registered ∈ trace

section Steps

variable {hash} {slot next : PullSlot} {input : SlotInput} {trace emitted : List SlotEvent}
  {task following : PullTask} {pulled : PullInput} {events : List PullEvent}

/-- A step that ends a pull whose batch arrives removes the entry. -/
theorem ended_unregistered (halive : task.Alive) (hended : ¬ following.Alive)
    (harrives : ∀ arrivals dropped, pulled = .received arrivals dropped →
      PullTask.BatchArrives hash task arrivals)
    (h : PullTask.step hash task pulled = some (following, events)) :
    following.registered = false ∧ removesControl pulled = true := by
  cases pulled with
  | control ctl held =>
    simp only [PullTask.step] at h
    split at h
    · cases h
      exact absurd halive hended
    · cases h
      exact absurd halive hended
  | displaced =>
    cases h
    exact absurd halive hended
  | next size outcome =>
    rcases PullTask.advance_cases h with ⟨queue, -, -, rfl, -⟩ | ⟨queue, -, -, rfl, -⟩ |
      ⟨queue, -, -, rfl, -⟩ | ⟨queue, -, -, rfl, -⟩ | ⟨-, -, rfl, -⟩ | ⟨-, -, rfl, -⟩
    · exact absurd (fun result hresult => by cases hresult) hended
    · exact absurd (fun result hresult => by cases hresult) hended
    · exact absurd (fun result hresult => by cases hresult) hended
    · exact ⟨rfl, rfl⟩
    · exact ⟨rfl, rfl⟩
    · exact absurd (fun result hresult => by cases hresult) hended
  | received arrivals dropped =>
    have hbatch := harrives arrivals dropped rfl
    simp only [PullTask.step] at h
    split at h
    · next batch hphase =>
      unfold PullTask.BatchArrives at hbatch
      rw [hphase] at hbatch
      dsimp only at hbatch
      split at h
      · next hfailed =>
        rw [hfailed] at hbatch
        cases hbatch
      · cases h
        refine absurd (fun result hresult => ?_) hended
        have hhead : PullTask.loopHead task.left = .ended result := hresult
        unfold PullTask.loopHead at hhead
        split at hhead
        · cases hhead
        · cases hhead
    · cases h
  | finish outcome =>
    simp only [PullTask.step] at h
    split at h
    · cases h
      exact ⟨rfl, rfl⟩
    · cases h

/-- A pull that has returned only has commands turned away. -/
theorem stays_ended (hended : ¬ task.Alive)
    (h : PullTask.step hash task pulled = some (following, events)) :
    ¬ following.Alive ∧ (task.registered = false → following.registered = false) := by
  cases pulled with
  | control ctl held =>
    simp only [PullTask.step] at h
    split at h
    · next haccepts => exact absurd haccepts.2.1 hended
    · cases h
      exact ⟨hended, id⟩
  | displaced =>
    cases h
    exact ⟨hended, fun _ => rfl⟩
  | next size outcome =>
    refine absurd (fun result hresult => ?_) hended
    rcases PullTask.advance_cases h with ⟨-, hphase, -⟩ | ⟨-, hphase, -⟩ | ⟨-, hphase, -⟩ |
      ⟨-, hphase, -⟩ | ⟨hphase, -⟩ | ⟨hphase, -⟩
    all_goals simp [hresult] at hphase
  | received arrivals dropped =>
    simp only [PullTask.step] at h
    split at h
    · next hphase => exact absurd (PullTask.alive_of_phase hphase (by simp)) hended
    · cases h
  | finish outcome =>
    simp only [PullTask.step] at h
    split at h
    · next hphase => exact absurd (PullTask.alive_of_phase hphase (by simp)) hended
    · cases h

theorem Tidied.step (h : Tidied trace slot) (hguard : arrivalGuard hash trace slot input)
    (hnext : PullSlot.step hash slot input = some (next, emitted)) :
    Tidied (trace ++ emitted) next := by
  cases input with simp only [PullSlot.step] at hnext
  | early result =>
    split at hnext
    · cases hnext
      exact ⟨fun _ => rfl, fun hothers => List.mem_append_left _ (h.others hothers)⟩
    · cases hnext
  | register disk writer =>
    split at hnext
    · cases hnext
      refine ⟨fun hreturned => absurd (fun result hresult => ?_) hreturned, fun hothers => ?_⟩
      · have hhead : PullTask.loopHead writer.manifest.missingChunks = .ended result := hresult
        unfold PullTask.loopHead at hhead
        split at hhead
        · cases hhead
        · cases hhead
      · cases hothers
    · cases hnext
  | task pulled =>
    split at hnext
    · next task hstage =>
      obtain ⟨⟨following, events⟩, hstep, hresult⟩ := Option.map_eq_some_iff.mp hnext
      dsimp only at hresult
      split at hresult
      · next hends =>
        cases hresult
        rw [List.append_nil]
        have harrives : ∀ arrivals dropped, pulled = .received arrivals dropped →
            PullTask.BatchArrives hash task arrivals := by
          rintro arrivals dropped rfl
          unfold arrivalGuard at hguard
          rw [hstage] at hguard
          exact hguard
        refine ⟨fun _ => (ended_unregistered hends.1 hends.2 harrives hstep).1, fun hothers => ?_⟩
        exact h.others (Bool.and_eq_true _ _ ▸ hothers).1
      · next hgoes =>
        cases hresult
        rw [List.append_nil]
        refine ⟨fun hreturned => ?_, h.others⟩
        have hended : ¬ task.Alive := fun halive => hgoes ⟨halive, hreturned⟩
        have hown : slot.own = false := h.own (by unfold Returned; rw [hstage]; exact hended)
        unfold PullSlot.own at hown
        rw [hstage] at hown
        exact (stays_ended hended hstep).2 hown
    · cases hnext
  | othersInsert =>
    cases hnext
    refine ⟨fun _ => ?_, fun _ => List.mem_append_right _ (List.mem_singleton_self _)⟩
    unfold PullSlot.own displace
    cases slot.stage with
    | running task => rfl
    | preparing | left => rfl
  | othersRemove =>
    cases hnext
    refine ⟨fun _ => ?_, fun hothers => ?_⟩
    · unfold PullSlot.own displace
      cases slot.stage with
      | running task => rfl
      | preparing | left => rfl
    · cases hothers

theorem clean_run {inputs : List SlotInput}
    (hexec : Exec (PullSlot.step hash) (arrivalGuard hash) start inputs trace slot) :
    Clean trace slot := by
  have htidied : Tidied trace slot := by
    induction hexec with
    | start => exact ⟨fun hreturned => hreturned.elim, fun hothers => by cases hothers⟩
    | step _ hguard hnext ih => exact ih.step hguard hnext
  refine fun hreturned => ⟨htidied.own hreturned, fun hnone => ?_⟩
  unfold entry
  rw [htidied.own hreturned, Bool.or_false]
  cases hothers : slot.others with
  | false => rfl
  | true => exact absurd (htidied.others hothers) hnone

end Steps

end PullSlot

/-- Pushes of whose large files none returns because the offer cannot be sent, its deadline passes,
the session is gone or the small files cannot be sent, all of whose sender jobs have ended when the
`JobDone` is taken, and for which no sender job is made after they have returned, leave nothing: no
entry in `push_jobs` and `push_controls`, and no sender job. In every run, a push that has returned is
still in them exactly if it has large files and took such an exit. A pull whose batches arrive leaves
no entry in `task_controls`. -/
theorem registrations_cleaned (hash : List UInt8 → String) (offerTimeoutSecs maxSecs : Nat) :
    (∀ inputs trace (state : PushServing),
      Exec PushServing.step PushServing.tidyGuard (PushServing.start offerTimeoutSecs maxSecs) inputs
        trace state → PushServing.Clean trace state) ∧
    (∀ inputs trace (state : PushServing),
      Exec PushServing.step Guard.free (PushServing.start offerTimeoutSecs maxSecs) inputs trace
        state →
      ∀ job push exit, state.table.pushes job = some push → push.phase = .finished exit →
        (push.registered = true ↔ exit.keeps = true ∧ push.hasLarge = true)) ∧
    ∀ inputs trace (slot : PullSlot),
      Exec (PullSlot.step hash) (PullSlot.arrivalGuard hash) PullSlot.start inputs trace slot →
        PullSlot.Clean trace slot := by
  refine ⟨fun inputs trace state hexec => PushServing.clean_run hexec, ?_,
    fun inputs trace slot hexec => PullSlot.clean_run hexec⟩
  intro inputs trace state hexec job push exit hpush hphase
  have hregular := (PushServing.served_run hexec).table.regular job push hpush
  rw [hregular.finished exit hphase, Bool.and_eq_true]

/-- A large file is offered to a peer. -/
def offerLarge (error : Option String) : List ServeInput :=
  [.push (.pushFiles 7 [largeIn "/d/x" ""]), .push (.move 1 (.offer error))]

/-- The offer is accepted, the file is asked for, received and acknowledged, and the job is done. -/
def takeLarge : List ServeInput :=
  [.push (.move 1 .subscribe),
    .push (.signal { peer := 7, msg := .offerResp true none none [], about := some 1 }),
    .push (.move 1 .poll), .metaReq (some 1) "x", .built true, .push (.move 1 (.proceed true)),
    .push (.move 1 .listen), .senderEnds (2 ^ 63),
    .push (.signal { peer := 7, msg := .jobDone 1 1, about := none }), .push (.move 1 .poll)]

/-- A pull is cancelled before its first batch. -/
def cancelPull : List SlotInput :=
  [.register PullTask.oneChunkPull.disk PullTask.oneChunkWriter, .task (.control .cancel false),
    .task PullTask.nextStep]

/-- A push whose file is received, and a pull that is cancelled. -/
theorem registrations_cleaned_samples :
    (∃ inputs trace state, Exec PushServing.step PushServing.tidyGuard (PushServing.start 60 1800)
        inputs trace state ∧ 1 ∈ PushServing.returnedJobs trace ∧ PushServing.Clean trace state) ∧
      ∃ inputs trace slot, Exec (PullSlot.step shortHash) (PullSlot.arrivalGuard shortHash)
        PullSlot.start inputs trace slot ∧ PullSlot.Clean trace slot := by
  obtain ⟨hpush, -, hpull⟩ := registrations_cleaned shortHash 60 1800
  obtain ⟨state, hexec⟩ := exec_of_run PushServing.step PushServing.tidyGuard
    (PushServing.start 60 1800) (offerLarge none ++ takeLarge) (by decide)
  obtain ⟨slot, hslot⟩ := exec_of_run (PullSlot.step shortHash) (PullSlot.arrivalGuard shortHash)
    PullSlot.start cancelPull (by decide)
  exact ⟨⟨_, _, _, hexec, by decide, hpush _ _ _ hexec⟩, _, _, _, hslot, hpull _ _ _ hslot⟩

/-- A push whose offer cannot be sent stays in `push_jobs`. -/
theorem not_cleaned_send_failed :
    ¬ ∀ (offerTimeoutSecs maxSecs : Nat) (inputs : List ServeInput) (trace : List ServeEvent)
        (state : PushServing),
      Exec PushServing.step Guard.free (PushServing.start offerTimeoutSecs maxSecs) inputs trace
        state → PushServing.Clean trace state := by
  intro hall
  have hview : (Machine.run PushServing.step Guard.free [] (PushServing.start 60 1800)
      (offerLarge (some "closed") ++ [.cleanup 1])).map (fun result =>
        (PushServing.returnedJobs result.2, (result.1.table.pushes 1).map Push.registered)) =
      some ([1], some true) := by
    decide
  obtain ⟨⟨state, trace⟩, hrun, hseen⟩ := Option.map_eq_some_iff.mp hview
  obtain ⟨hreturned, hregistered⟩ := Prod.ext_iff.mp hseen
  obtain ⟨push, hpush, htrue⟩ := Option.map_eq_some_iff.mp hregistered
  have hmem : 1 ∈ PushServing.returnedJobs trace := by
    rw [show PushServing.returnedJobs trace = [1] from hreturned]
    exact List.mem_singleton_self 1
  have hfalse := (hall _ _ _ _ _ (Exec.start.append_run hrun) 1 hmem).1 push hpush
  rw [hfalse] at htrue
  cases htrue

end LocalTrans
