import LocalTrans.Foundation.Broadcast
import LocalTrans.Foundation.Execution
import LocalTrans.Transfer.Progress

/-!
# Pushing files

`push_files_inner` of `engine.rs`, one step for each point at which the task can be interrupted:
send the offer, subscribe to the signals of the control loops, wait for the response, send the
small files, subscribe again, wait for the outcome. All pushes share one bounded broadcast
channel, on which the control loops of all sessions put the `OfferResp`, `JobDone` and `JobFailed`
they receive. An `OfferResp` does not say which offer it answers; the model notes it in `about`,
which no step of a push reads.
-/

namespace LocalTrans

open Foundation

/-- A file that is pushed, as it is found on the local disk. -/
structure LocalFile where
  path : String
  name : String
  relDir : String
  size : Nat
  digest : String
deriving DecidableEq

/-- The entry of a file in the offer; only small files are hashed beforehand. -/
def LocalFile.offer (file : LocalFile) : OfferFile :=
  { name := file.name, size := file.size, relDir := file.relDir,
    hash := if file.size ≤ smallFileLimit then some file.digest else none }

/-- `small_files`. -/
def smallFiles (files : List LocalFile) : List LocalFile :=
  files.filter fun file => file.size ≤ smallFileLimit

/-- `large_files`. -/
def largeFiles (files : List LocalFile) : List LocalFile :=
  files.filter fun file => ¬ file.size ≤ smallFileLimit

/-- Whether the bitmap of the response skips a file: its bit is that of the first file with the
same path, and a bit that is missing skips nothing. -/
def skips (files : List LocalFile) (bitmap : List Bool) (file : LocalFile) : Bool :=
  ((files.findIdx? fun other => other.path == file.path).bind fun i => bitmap[i]?).getD false

/-- A message of the broadcast channel. `about` is the offer a response is meant for, if any. -/
structure Signal where
  peer : Fingerprint
  msg : ControlMsg
  about : Option Nat
deriving DecidableEq

/-- Where `push_files_inner` returns. -/
inductive PushExit where
  | sendFailed (text : String)
  | cancelled
  | timeout
  | denied (reason : Option OfferDenyReason)
  | sessionNotFound
  | batchFailed (error : EngineError)
  | doneCancelled
  | failed (reason : String)
  | doneTimeout (secs : Nat)
  | allSkipped
  | done
deriving DecidableEq

/-- What `push_files_inner` returns there. -/
def PushExit.result : PushExit → Except EngineError Unit
  | .sendFailed text => .error (.rpc ("发送 OfferReq 失败: " ++ text))
  | .cancelled => .error .cancelled
  | .timeout => .error .timeout
  | .denied (some .timeout) => .error .offerTimeout
  | .denied _ => .error .offerRejected
  | .sessionNotFound => .error .sessionNotFound
  | .batchFailed error => .error error
  | .doneCancelled => .error (.rpc "对方接收失败: 已取消")
  | .failed reason => .error (.rpc ("对方接收失败: " ++ reason))
  | .doneTimeout secs =>
    .error (.rpc ("传输未完成(" ++ toString secs ++ "s 内无 JobDone,可重试)"))
  | .allSkipped | .done => .ok ()

/-- How far a push is. A waiting push holds its position in the channel and its deadline. -/
inductive PushPhase where
  | prepared
  | offered
  | awaitingResp (position deadline : Nat)
  | answered
  | batching
  | sent
  | awaitingDone (position deadline : Nat)
  | finished (exit : PushExit)
deriving DecidableEq

/-- Whether the offer has been sent. -/
def PushPhase.offerSent : PushPhase → Bool
  | .prepared | .finished (.sendFailed _) => false
  | _ => true

/-- The verdict of the response a phase rests on, if it rests on one. -/
def PushPhase.verdict : PushPhase → Option PushPhase
  | .prepared | .offered | .awaitingResp .. => none
  | .finished (.sendFailed _) | .finished .cancelled | .finished .timeout => none
  | .finished (.denied reason) => some (.finished (.denied reason))
  | _ => some .answered

/-- A running or finished push: its cancel flag, whether its large files are in `push_jobs`, how
many signals there were when its offer was sent, and the response it took. -/
structure Push where
  peer : Fingerprint
  files : List LocalFile
  cancelled : Bool
  registered : Bool
  offeredAt : Nat
  answer : Option Signal
  phase : PushPhase
deriving DecidableEq

/-- What a push does that others can see. -/
inductive PushEvent where
  | offerReq (peer : Fingerprint) (job : Nat) (files : List OfferFile)
  | batch (job : Nat) (files : List LocalFile)
  | progress (event : ProgressEvent)
  | returned (job : Nat) (result : Except EngineError Unit)

/-- The points at which a push can go on. -/
inductive PushMove where
  | offer (error : Option String)
  | subscribe
  | poll
  | expire
  | proceed (connected : Bool)
  | batchEnd (error : Option EngineError)
  | listen
  | cancel
deriving DecidableEq

/-- What can happen: a push starts, another transfer takes a job id, a push goes on, a control
loop broadcasts a signal, a setting changes, and time passes. -/
inductive PushInput where
  | pushFiles (peer : Fingerprint) (files : List LocalFile)
  | otherJob
  | move (job : Nat) (move : PushMove)
  | signal (signal : Signal)
  | setOfferTimeout (secs : Nat)
  | tick (secs : Nat)
deriving DecidableEq

/-- All pushes by job id, the channel, the settings, and the time in seconds. -/
structure PushTable where
  signals : Broadcast Signal
  pushes : Nat → Option Push
  nextJob : Nat
  now : Nat
  offerTimeoutSecs : Nat
  maxSecs : Nat

namespace Push

/-- `resp_skip_bitmap`. -/
def skipBitmap (push : Push) : List Bool :=
  match push.answer with
  | some { msg := .offerResp _ _ _ bitmap, .. } => bitmap
  | _ => []

/-- The small files that are still sent after the response. -/
def kept (push : Push) : List LocalFile :=
  (smallFiles push.files).filter fun file => ¬ skips push.files push.skipBitmap file

/-- `skipped_small`. -/
def skipped (push : Push) : List LocalFile :=
  (smallFiles push.files).filter fun file => skips push.files push.skipBitmap file

/-- `has_small || has_large`, after the response. -/
def hasFiles (push : Push) : Bool :=
  !push.kept.isEmpty || !(largeFiles push.files).isEmpty

/-- The `Started` events of some files. -/
def started (job : Nat) (files : List LocalFile) : List PushEvent :=
  files.map fun file => .progress (.started job file.name file.size)

/-- One `Done` for each small file, and one for the job. -/
def doneEvents (push : Push) (job : Nat) : List PushEvent :=
  List.replicate (push.kept.length + push.skipped.length + 1) (.progress (.done job))

/-- Return from `push_files_inner`. -/
def finish (push : Push) (job : Nat) (exit : PushExit) : Push × List PushEvent :=
  ({ push with phase := .finished exit }, [.returned job exit.result])

/-- Take the large files out of `push_jobs`, then return. -/
def finishClean (push : Push) (job : Nat) (exit : PushExit) : Push × List PushEvent :=
  finish { push with registered := false } job exit

/-- Report every file and the job as done, then return. -/
def succeed (push : Push) (job : Nat) (exit : PushExit) : Push × List PushEvent :=
  let (push, events) := push.finish job exit
  (push, push.doneEvents job ++ events)

/-- A response was taken. -/
def takeResponse (push : Push) (job : Nat) (answer : Signal) (accepted : Bool)
    (reason : Option OfferDenyReason) : Push × List PushEvent :=
  let push := { push with answer := some answer }
  if accepted then ({ push with phase := .answered }, [])
  else push.finishClean job (.denied reason)

/-- After the small files: the large files are fetched by the receiver, and if anything was sent
the push waits for the outcome. -/
def startLarge (push : Push) (job : Nat) : Push × List PushEvent :=
  let large := started job (largeFiles push.files)
  if push.hasFiles then ({ push with phase := .sent }, large)
  else
    let (push, events) := push.succeed job .allSkipped
    (push, large ++ events)

/-- The head of the loop that waits for the response. -/
def awaitResp (push : Push) (job position deadline : Nat) : Push × List PushEvent :=
  if push.cancelled then push.finishClean job .cancelled
  else ({ push with phase := .awaitingResp position deadline }, [])

/-- The head of the loop that waits for the outcome. -/
def awaitDone (push : Push) (job position deadline : Nat) : Push × List PushEvent :=
  if push.cancelled then push.finishClean job .doneCancelled
  else ({ push with phase := .awaitingDone position deadline }, [])

/-- A message was received while waiting for the response: any response of the peer is taken. -/
def respSignal (push : Push) (job : Nat) (signal : Signal) (position deadline : Nat) :
    Push × List PushEvent :=
  match signal.peer == push.peer, signal.msg with
  | true, .offerResp accepted _ reason _ => push.takeResponse job signal accepted reason
  | _, _ => push.awaitResp job position deadline

/-- A message was received while waiting for the outcome. -/
def doneSignal (push : Push) (job : Nat) (signal : Signal) (position deadline : Nat) :
    Push × List PushEvent :=
  match signal.peer == push.peer, signal.msg with
  | true, .jobDone _ offerId =>
    if offerId = job then { push with registered := false }.succeed job .done
    else push.awaitDone job position deadline
  | true, .jobFailed offerId reason =>
    if offerId = job then push.finishClean job (.failed reason)
    else push.awaitDone job position deadline
  | _, _ => push.awaitDone job position deadline

/-- What the loop that waits for the response does with what it receives; it is empty when five
seconds pass without a signal. The cancel flag is only read at the head of the loop. -/
def pollResp (push : Push) (signals : Broadcast Signal) (job position deadline : Nat) :
    Push × List PushEvent :=
  match signals.recv position with
  | (.message signal, position) => push.respSignal job signal position deadline
  | (_, position) => push.awaitResp job position deadline

/-- What the loop that waits for the outcome does with what it receives. -/
def pollDone (push : Push) (signals : Broadcast Signal) (job position deadline : Nat) :
    Push × List PushEvent :=
  match signals.recv position with
  | (.message signal, position) => push.doneSignal job signal position deadline
  | (_, position) => push.awaitDone job position deadline

end Push

variable {table : PushTable}

namespace PushTable

/-- No push yet; the channel keeps 64 signals. -/
def start (offerTimeoutSecs maxSecs : Nat) : PushTable :=
  { signals := { capacity := 64, log := [] }, pushes := fun _ => none, nextJob := 1, now := 0,
    offerTimeoutSecs, maxSecs }

/-- `SessionManager::offer_timeout_secs`, and half a minute for the way. -/
def offerWaitSecs (table : PushTable) : Nat :=
  max 1 (min table.offerTimeoutSecs 600) + 30

/-- Replace the push of a job. -/
def put (table : PushTable) (job : Nat) (push : Push) : PushTable :=
  { table with pushes := Function.update table.pushes job (some push) }

@[simp] theorem put_self {job : Nat} {push : Push} :
    (table.put job push).pushes job = some push := by
  simp [put]

@[simp] theorem put_signals {job : Nat} {push : Push} :
    (table.put job push).signals = table.signals := rfl

/-- One step of a push. A timer fires only when no signal is left to be read: the waiting loop is
polled before the timer. -/
def advance (table : PushTable) (job : Nat) (push : Push) :
    PushMove → Option (Push × List PushEvent)
  | .offer error =>
    if push.phase = .prepared then
      match error with
      | none =>
        some ({ push with phase := .offered, offeredAt := table.signals.subscribe },
          [.offerReq push.peer job (push.files.map LocalFile.offer)])
      | some text => some (push.finish job (.sendFailed text))
    else none
  | .subscribe =>
    if push.phase = .offered then
      some (push.awaitResp job table.signals.subscribe (table.now + table.offerWaitSecs))
    else none
  | .poll =>
    match push.phase with
    | .awaitingResp position deadline =>
      some (push.pollResp table.signals job position deadline)
    | .awaitingDone position deadline =>
      some (push.pollDone table.signals job position deadline)
    | _ => none
  | .expire =>
    match push.phase with
    | .awaitingResp position deadline =>
      if deadline ≤ table.now ∧ table.signals.unread position = [] then
        some (push.finish job .timeout)
      else none
    | .awaitingDone position deadline =>
      if deadline ≤ table.now ∧ table.signals.unread position = [] then
        some (push.finishClean job (.doneTimeout table.maxSecs))
      else none
    | _ => none
  | .proceed connected =>
    if push.phase = .answered then
      if connected then
        let first := Push.started job push.skipped
        if push.kept.isEmpty then
          let (push, events) := push.startLarge job
          some (push, first ++ events)
        else
          some ({ push with phase := .batching },
            first ++ Push.started job push.kept ++ [.batch job push.kept])
      else some (push.finish job .sessionNotFound)
    else none
  | .batchEnd error =>
    if push.phase = .batching then
      match error with
      | none => some (push.startLarge job)
      | some error =>
        let (push, events) := push.finish job (.batchFailed error)
        some (push, .progress (.failed job ("小文件批流失败: " ++ error.text)) :: events)
    else none
  | .listen =>
    if push.phase = .sent then
      some (push.awaitDone job table.signals.subscribe (table.now + table.maxSecs))
    else none
  | .cancel => some ({ push with cancelled := true }, [])

/-- Whether an offer was sent to the peer under the job id. -/
def wasOffered (table : PushTable) (peer : Fingerprint) (job : Nat) : Bool :=
  (table.pushes job).any fun push => push.peer == peer && push.phase.offerSent

/-- One step. A response can only be meant for an offer that was sent to its sender. -/
def step (table : PushTable) : PushInput → Option (PushTable × List PushEvent)
  | .pushFiles peer files =>
    let push : Push := {
      peer, files, cancelled := false, registered := !(largeFiles files).isEmpty,
      offeredAt := 0, answer := none, phase := .prepared }
    some ({ table.put table.nextJob push with nextJob := table.nextJob + 1 }, [])
  | .otherJob => some ({ table with nextJob := table.nextJob + 1 }, [])
  | .move job move =>
    (table.pushes job).bind fun push =>
      (table.advance job push move).map fun (push, events) => (table.put job push, events)
  | .signal signal =>
    if signal.about.all (table.wasOffered signal.peer) then
      some ({ table with signals := table.signals.send signal }, [])
    else none
  | .setOfferTimeout secs => some ({ table with offerTimeoutSecs := secs }, [])
  | .tick secs => some ({ table with now := table.now + secs }, [])

end PushTable

namespace Signal

/-- A response of the peer, to whichever offer. -/
def responds (peer : Fingerprint) (signal : Signal) : Bool :=
  signal.peer == peer &&
    match signal.msg with
    | .offerResp .. => true
    | _ => false

/-- The response of the peer to the offer of the job. -/
def answers (peer : Fingerprint) (job : Nat) (signal : Signal) : Bool :=
  signal.responds peer && signal.about == some job

/-- The outcome of the job, as the peer reports it. -/
def reports (peer : Fingerprint) (job : Nat) (signal : Signal) : Bool :=
  signal.peer == peer &&
    match signal.msg with
    | .jobDone _ offerId => offerId == job
    | .jobFailed offerId _ => offerId == job
    | _ => false

/-- What a push does on the response. -/
def verdict (signal : Signal) : Option PushPhase :=
  match signal.msg with
  | .offerResp true .. => some .answered
  | .offerResp false _ reason _ => some (.finished (.denied reason))
  | _ => none

/-- How a push ends on the outcome. -/
def outcome (signal : Signal) : Option PushExit :=
  match signal.msg with
  | .jobDone .. => some .done
  | .jobFailed _ reason => some (.failed reason)
  | _ => none

end Signal

/-- The exits for a reason that is neither a response, nor an outcome, nor a deadline. -/
def PushExit.own : PushExit → Bool
  | .sendFailed _ | .cancelled | .sessionNotFound | .batchFailed _ | .doneCancelled => true
  | _ => false

namespace Push

variable {signals : Broadcast Signal} {job : Nat} {push next : Push}

/-- What one step can make of a push. -/
inductive Moves (signals : Broadcast Signal) (job : Nat) (push : Push) : Push → Prop where
  | offer (hphase : push.phase = .prepared) :
      Moves signals job push { push with phase := .offered, offeredAt := signals.subscribe }
  | cancel : Moves signals job push { push with cancelled := true }
  | quit (exit : PushExit) (registered : Bool) (hown : exit.own = true)
      (hverdict : PushPhase.verdict (.finished exit) = push.phase.verdict)
      (hsent : PushPhase.offerSent (.finished exit) = true → push.phase.offerSent = true) :
      Moves signals job push { push with phase := .finished exit, registered }
  | subscribe (deadline : Nat) (hphase : push.phase = .offered) :
      Moves signals job push { push with phase := .awaitingResp signals.subscribe deadline }
  | skipResp (position deadline : Nat) (hphase : push.phase = .awaitingResp position deadline)
      (hother : ∀ signal, (signals.recv position).1 = .message signal →
        signal.responds push.peer = false) :
      Moves signals job push
        { push with phase := .awaitingResp (signals.recv position).2 deadline }
  | takeResp (position deadline : Nat) (signal : Signal) (phase : PushPhase) (registered : Bool)
      (hphase : push.phase = .awaitingResp position deadline)
      (hrecv : (signals.recv position).1 = .message signal)
      (hresp : signal.responds push.peer = true) (hverdict : signal.verdict = some phase) :
      Moves signals job push { push with answer := some signal, phase, registered }
  | timeout (position deadline : Nat) (hphase : push.phase = .awaitingResp position deadline)
      (hunread : signals.unread position = []) :
      Moves signals job push { push with phase := .finished .timeout }
  | batch (hphase : push.phase = .answered) (hfiles : push.hasFiles = true) :
      Moves signals job push { push with phase := .batching }
  | sent (hphase : push.phase = .answered ∨ push.phase = .batching)
      (hfiles : push.hasFiles = true) : Moves signals job push { push with phase := .sent }
  | allSkipped (hphase : push.phase = .answered ∨ push.phase = .batching)
      (hfiles : push.hasFiles = false) :
      Moves signals job push { push with phase := .finished .allSkipped }
  | listen (deadline : Nat) (hphase : push.phase = .sent) :
      Moves signals job push { push with phase := .awaitingDone signals.subscribe deadline }
  | skipDone (position deadline : Nat) (hphase : push.phase = .awaitingDone position deadline)
      (hother : ∀ signal, (signals.recv position).1 = .message signal →
        signal.reports push.peer job = false) :
      Moves signals job push
        { push with phase := .awaitingDone (signals.recv position).2 deadline }
  | takeDone (position deadline : Nat) (signal : Signal) (exit : PushExit)
      (hphase : push.phase = .awaitingDone position deadline)
      (hrecv : (signals.recv position).1 = .message signal)
      (hreport : signal.reports push.peer job = true) (houtcome : signal.outcome = some exit) :
      Moves signals job push { push with phase := .finished exit, registered := false }
  | doneTimeout (position deadline secs : Nat)
      (hphase : push.phase = .awaitingDone position deadline)
      (hunread : signals.unread position = []) :
      Moves signals job push
        { push with phase := .finished (.doneTimeout secs), registered := false }

variable {position deadline : Nat}

/-- The head of the first waiting loop. -/
theorem await_resp_moves (hbefore : push.phase.verdict = none) (hsent : push.phase.offerSent = true)
    (hwait : Moves signals job push { push with phase := .awaitingResp position deadline }) :
    Moves signals job push (push.awaitResp job position deadline).1 := by
  unfold awaitResp
  split
  · exact .quit .cancelled false rfl hbefore.symm fun _ => hsent
  · exact hwait

/-- The head of the second waiting loop. -/
theorem await_done_moves (hbefore : push.phase.verdict = some .answered)
    (hsent : push.phase.offerSent = true)
    (hwait : Moves signals job push { push with phase := .awaitingDone position deadline }) :
    Moves signals job push (push.awaitDone job position deadline).1 := by
  unfold awaitDone
  split
  · exact .quit .doneCancelled false rfl hbefore.symm fun _ => hsent
  · exact hwait

/-- The first waiting loop takes a response of the peer, and waits on at anything else. -/
theorem poll_resp_spec (signals : Broadcast Signal) (job position deadline : Nat) (push : Push) :
    (∃ signal phase registered, (signals.recv position).1 = .message signal ∧
      signal.responds push.peer = true ∧ signal.verdict = some phase ∧
      (push.pollResp signals job position deadline).1 =
        { push with answer := some signal, phase, registered }) ∨
    (∀ signal, (signals.recv position).1 = .message signal →
      signal.responds push.peer = false) ∧
      (push.pollResp signals job position deadline).1 =
        (push.awaitResp job (signals.recv position).2 deadline).1 := by
  unfold pollResp
  rcases signals.recv position with ⟨received, later⟩
  cases received with
  | empty => exact .inr ⟨by simp, rfl⟩
  | lagged missed => exact .inr ⟨by simp, rfl⟩
  | message signal =>
    dsimp only
    unfold respSignal
    split
    · next accepted saveDir reason bitmap hpeer hmsg =>
      have hresp : signal.responds push.peer = true := by simp [Signal.responds, hpeer, hmsg]
      unfold takeResponse
      split
      · next haccepted =>
        exact .inl ⟨signal, .answered, push.registered, rfl, hresp,
          by simp [Signal.verdict, hmsg, haccepted], rfl⟩
      · next hdenied =>
        exact .inl ⟨signal, .finished (.denied reason), false, rfl, hresp,
          by simp [Signal.verdict, hmsg, hdenied], rfl⟩
    · next hnot =>
      refine .inr ⟨fun other hother => ?_, rfl⟩
      cases hother
      unfold Signal.responds
      cases hpeer : signal.peer == push.peer with
      | false => rfl
      | true =>
        cases hmsg : signal.msg with
        | offerResp => exact absurd hmsg (hnot _ _ _ _ hpeer)
        | _ => rfl

/-- The second waiting loop ends with the outcome of the job, and waits on at anything else. -/
theorem poll_done_spec (signals : Broadcast Signal) (job position deadline : Nat) (push : Push) :
    (∃ signal exit, (signals.recv position).1 = .message signal ∧
      signal.reports push.peer job = true ∧ signal.outcome = some exit ∧
      (push.pollDone signals job position deadline).1 =
        { push with phase := .finished exit, registered := false }) ∨
    (∀ signal, (signals.recv position).1 = .message signal →
      signal.reports push.peer job = false) ∧
      (push.pollDone signals job position deadline).1 =
        (push.awaitDone job (signals.recv position).2 deadline).1 := by
  unfold pollDone
  rcases signals.recv position with ⟨received, later⟩
  cases received with
  | empty => exact .inr ⟨by simp, rfl⟩
  | lagged missed => exact .inr ⟨by simp, rfl⟩
  | message signal =>
    dsimp only
    unfold doneSignal
    split
    · next other offerId hpeer hmsg =>
      split
      · next hjob =>
        exact .inl ⟨signal, .done, rfl, by simp [Signal.reports, hpeer, hmsg, hjob],
          by simp [Signal.outcome, hmsg], rfl⟩
      · next hjob =>
        refine .inr ⟨fun found hfound => ?_, rfl⟩
        cases hfound
        simp [Signal.reports, hmsg, hjob]
    · next offerId reason hpeer hmsg =>
      split
      · next hjob =>
        exact .inl ⟨signal, .failed reason, rfl, by simp [Signal.reports, hpeer, hmsg, hjob],
          by simp [Signal.outcome, hmsg], rfl⟩
      · next hjob =>
        refine .inr ⟨fun found hfound => ?_, rfl⟩
        cases hfound
        simp [Signal.reports, hmsg, hjob]
    · next hdone hfailed =>
      refine .inr ⟨fun found hfound => ?_, rfl⟩
      cases hfound
      unfold Signal.reports
      cases hpeer : signal.peer == push.peer with
      | false => rfl
      | true =>
        cases hmsg : signal.msg with
        | jobDone => exact absurd hmsg (hdone _ _ hpeer)
        | jobFailed => exact absurd hmsg (hfailed _ _ hpeer)
        | _ => rfl

/-- A poll of a waiting push is a move. -/
theorem poll_resp_moves (hphase : push.phase = .awaitingResp position deadline) :
    Moves signals job push (push.pollResp signals job position deadline).1 := by
  rcases poll_resp_spec signals job position deadline push with
    ⟨signal, phase, registered, hrecv, hresp, hverdict, hnext⟩ | ⟨hother, hnext⟩
  · rw [hnext]
    exact .takeResp position deadline signal phase registered hphase hrecv hresp hverdict
  · rw [hnext]
    exact await_resp_moves (by rw [hphase]; rfl) (by rw [hphase]; rfl)
      (.skipResp position deadline hphase hother)

/-- So is a poll of a push that waits for the outcome. -/
theorem poll_done_moves (hphase : push.phase = .awaitingDone position deadline) :
    Moves signals job push (push.pollDone signals job position deadline).1 := by
  rcases poll_done_spec signals job position deadline push with
    ⟨signal, exit, hrecv, hreport, houtcome, hnext⟩ | ⟨hother, hnext⟩
  · rw [hnext]
    exact .takeDone position deadline signal exit hphase hrecv hreport houtcome
  · rw [hnext]
    exact await_done_moves (by rw [hphase]; rfl) (by rw [hphase]; rfl)
      (.skipDone position deadline hphase hother)

/-- After the small files, the push waits for the outcome or is done. -/
theorem start_large_moves (hphase : push.phase = .answered ∨ push.phase = .batching) :
    Moves signals job push (push.startLarge job).1 := by
  unfold startLarge
  cases hfiles : push.hasFiles with
  | true => exact .sent hphase hfiles
  | false => exact .allSkipped hphase hfiles

end Push

/-- Every step of a push is one of the moves. -/
theorem PushTable.advance_moves {job : Nat} {push next : Push} {move : PushMove}
    {events : List PushEvent} (h : table.advance job push move = some (next, events)) :
    push.Moves table.signals job next := by
  have hfirst : ∀ {result : Push × List PushEvent}, some result = some (next, events) →
      result.1 = next := fun hresult => congrArg Prod.fst (Option.some.inj hresult)
  cases move with simp only [advance] at h
  | offer error =>
    obtain ⟨hphase, h⟩ := of_when h
    cases error with
    | none =>
      obtain rfl := hfirst h
      exact .offer hphase
    | some text =>
      obtain rfl := hfirst h
      exact .quit (.sendFailed text) push.registered rfl (by rw [hphase]; rfl)
        (by simp [PushPhase.offerSent])
  | subscribe =>
    obtain ⟨hphase, h⟩ := of_when h
    obtain rfl := hfirst h
    exact Push.await_resp_moves (by rw [hphase]; rfl) (by rw [hphase]; rfl) (.subscribe _ hphase)
  | poll =>
    split at h
    · next position deadline hphase =>
      obtain rfl := hfirst h
      exact Push.poll_resp_moves hphase
    · next position deadline hphase =>
      obtain rfl := hfirst h
      exact Push.poll_done_moves hphase
    · cases h
  | expire =>
    split at h
    · next position deadline hphase =>
      obtain ⟨hdue, h⟩ := of_when h
      obtain rfl := hfirst h
      exact .timeout position deadline hphase hdue.2
    · next position deadline hphase =>
      obtain ⟨hdue, h⟩ := of_when h
      obtain rfl := hfirst h
      exact .doneTimeout position deadline _ hphase hdue.2
    · cases h
  | proceed connected =>
    obtain ⟨hphase, h⟩ := of_when h
    split at h
    · split at h
      · obtain rfl := hfirst h
        exact Push.start_large_moves (.inl hphase)
      · next hkept =>
        obtain rfl := hfirst h
        exact .batch hphase (by simp [Push.hasFiles, hkept])
    · obtain rfl := hfirst h
      exact .quit .sessionNotFound push.registered rfl (by rw [hphase]; rfl)
        (by rw [hphase]; exact id)
  | batchEnd error =>
    obtain ⟨hphase, h⟩ := of_when h
    cases error with
    | none =>
      obtain rfl := hfirst h
      exact Push.start_large_moves (.inr hphase)
    | some error =>
      obtain rfl := hfirst h
      exact .quit (.batchFailed error) push.registered rfl (by rw [hphase]; rfl)
        (by rw [hphase]; exact id)
  | listen =>
    obtain ⟨hphase, h⟩ := of_when h
    obtain rfl := hfirst h
    exact Push.await_done_moves (by rw [hphase]; rfl) (by rw [hphase]; rfl) (.listen _ hphase)
  | cancel =>
    obtain rfl := hfirst h
    exact .cancel

end LocalTrans
