import LocalTrans.Foundation.Execution
import LocalTrans.Foundation.Hex
import LocalTrans.Foundation.Json
import LocalTrans.Mobile.Handlers

/-!
# Retried downloads in the mobile app

`retry_transfer`, the automatic resumption when a session comes up, and `spawn_retry_transfer`: a
placeholder row, a slot in the queue, `start_pull_into`, and the events of the download. The peer of
a manifest is the hexadecimal text of a fingerprint; it is encoded once more before it is decoded
(`decode_encoded_peer`), so that no retry gets to the peer of its manifest (`retry_never_continues`).
-/

namespace LocalTrans.Ffi

open Foundation

/-- `decode_fp32`, without the texts of its errors. -/
def decodeFp32 (text : String) : Option Fingerprint :=
  match hexDecode text with
  | some bytes =>
    if bytes.length ≠ 32 then none
    else some (BitVec.ofNat 256 (bytes.foldl (fun n byte => n * 256 + byte.toNat) 0))
  | none => none

/-- The arguments of `start_pull_into`. -/
structure PullCall where
  peer : Fingerprint
  shareId : String
  rel : String
  inbox : String
deriving DecidableEq

/-- Where a retry is: none is under way; `spawn_retry_transfer` is called; its row waits for a slot;
the download runs; it has returned, and its last events are handled. -/
inductive RetryPoint where
  | idle
  | called (job : Nat)
  | queued (placeholder : Nat) (peerHex : String) (manifest : Manifest) (inbox : String)
  | pulling (placeholder : Nat) (alive : Bool)
  | returned (placeholder : Nat) (alive : Bool)
deriving DecidableEq

/-- A task that retries jobs, one after the other. -/
structure RetryTask where
  point : RetryPoint
  rest : List Nat
deriving DecidableEq

/-- The app, as far as retries read it. -/
structure RetryApp where
  st : AppState
  nextPlaceholder : Nat
  autoRetried : List Nat
  tasks : List RetryTask

/-- `retry_transfer`, with the `pending_jobs` of the directory of the app; a session comes up, with
these jobs, and the cards that are to be resumed, in the order of the table; a task takes its next
job; it looks for the job; the place of its row in the queue is shown; its slot comes, or not within
60 seconds; an event of its download; the download returns, perhaps with an error; its events are
all handled; and the other tasks of the app write the table. -/
inductive RetryInput where
  | retry (job : Nat) (jobs : List (Nat × Manifest))
  | sessionUp (peerHex : String) (jobs : List (Nat × Manifest)) (candidates : List Nat)
  | next (task : Nat)
  | look (task : Nat) (jobs : List (Nat × Manifest))
  | rank (task : Nat) (place : Option Nat)
  | slot (task : Nat) (granted : Bool)
  | progress (task : Nat) (ev : ProgressEvent)
  | finished (task : Nat) (error : Option String)
  | closed (task : Nat)
  | elsewhere (st : AppState)

/-- What `retry_transfer` answers; a retry gets its slot; it calls `start_pull_into`; the app hears
of a row. -/
inductive RetryEvent where
  | answered (job : Nat)
  | granted (manifest : Manifest)
  | started (manifest : Manifest) (call : PullCall)
  | heard (event : AppEvent)
deriving DecidableEq

namespace RetryApp

variable (app : RetryApp)

/-- A task is at another point. -/
def goto (task : Nat) (point : RetryPoint) : RetryApp :=
  { app with tasks := app.tasks.modify task fun t => { t with point } }

/-- The table is written. -/
def withTable (st : AppState) : RetryApp := { app with st }

/-- A retry whose slot has come. -/
def startRetry (task placeholder : Nat) (peerHex : String) (manifest : Manifest) (inbox : String) :
    RetryApp × List RetryEvent :=
  let st := app.st.cardMutate placeholder fun row => { row with queuePos := none }
  match decodeFp32 peerHex with
  | some peer =>
    ((app.withTable st).goto task (.pulling placeholder true),
      [.granted manifest, .started manifest
        { peer, shareId := manifest.shareId.getD "", rel := manifest.rel.getD "", inbox }])
  | none =>
    match st.cardApply placeholder (.failed (some "指纹格式非法")) with
    | (some row, st) =>
      ((app.withTable st).goto task .idle,
        [.granted manifest, .heard (.transferUpdated placeholder row),
          .heard (.transferDone placeholder false "指纹格式非法")])
    | (none, st) =>
      ((app.withTable st).goto task .idle,
        [.granted manifest, .heard (.transferDone placeholder false "指纹格式非法")])

/-- An event of a download goes to the handler. -/
def handle (placeholder : Nat) (alive : Bool) (ev : ProgressEvent) :
    RetryApp × Bool × List RetryEvent :=
  let (st, alive, heard) := app.st.handlePullProgressEvent placeholder alive ev
  (app.withTable st, alive, heard.map .heard)

/-- `auto_resumable_jobs`, on the jobs that are unfinished. -/
def autoResumable (peerHex : String) (jobs : List (Nat × Manifest)) : List Nat :=
  (jobs.map Prod.fst).filter fun job =>
    (app.st.transfers job).any (fun row => row.state = .failed && row.peer = peerHex) &&
      !app.autoRetried.contains job

/-- One step of a task, or of what is about it. -/
def step : Machine RetryApp RetryInput RetryEvent := fun app input =>
  match input with
  | .retry job jobs =>
    if jobs.any fun found => found.1 = job then
      some ({ app with tasks := app.tasks ++ [{ point := .called job, rest := [] }] },
        [.answered job])
    else some (app, [.answered 0])
  | .sessionUp peerHex jobs candidates =>
    if candidates.Perm (app.autoResumable peerHex jobs) then
      some ({ app with tasks := app.tasks ++ [{ point := .idle, rest := candidates }] }, [])
    else none
  | .next task =>
    match app.tasks[task]? with
    | some { point := .idle, rest := job :: rest } =>
      some ({ app with
        autoRetried := job :: app.autoRetried
        tasks := app.tasks.set task { point := .called job, rest } }, [])
    | _ => none
  | .look task jobs =>
    match app.tasks[task]? with
    | some { point := .called job, .. } =>
      match jobs.find? fun found => found.1 = job with
      | some (_, manifest) =>
        let peerHex := hexText (Json.plain (manifest.peer.getD ""))
        let row := AppState.pendingRow manifest.fileName manifest.totalSize peerHex "pull"
          "receiver"
        some (({ app with nextPlaceholder := app.nextPlaceholder - 1 }.withTable
          (app.st.cardCreate app.nextPlaceholder row)).goto task
            (.queued app.nextPlaceholder peerHex manifest app.st.inboxDir), [])
      | none => some (app.goto task .idle, [])
    | _ => none
  | .rank task place =>
    match app.tasks[task]? with
    | some { point := .queued placeholder .., .. } =>
      some (app.withTable
        (app.st.cardMutate placeholder fun row => { row with queuePos := place }), [])
    | _ => none
  | .slot task granted =>
    match app.tasks[task]? with
    | some { point := .queued placeholder peerHex manifest inbox, .. } =>
      if granted then some (app.startRetry task placeholder peerHex manifest inbox)
      else
        let st := app.st.cardMutate placeholder fun row => { row with queuePos := none }
        some ((app.withTable (st.cardApply placeholder .queueTimeout).2).goto task .idle, [])
    | _ => none
  | .progress task ev =>
    match app.tasks[task]? with
    | some { point := .pulling placeholder alive, .. } =>
      let (next, alive, heard) := app.handle placeholder alive ev
      some (next.goto task (.pulling placeholder alive), heard)
    | some { point := .returned placeholder alive, .. } =>
      let (next, alive, heard) := app.handle placeholder alive ev
      some (next.goto task (.returned placeholder alive), heard)
    | _ => none
  | .finished task error =>
    match app.tasks[task]? with
    | some { point := .pulling placeholder alive, .. } =>
      match error with
      | some text =>
        if alive then
          let (_, st, heard) := app.st.applyCardEvent placeholder (.failed (some text))
          some ((app.withTable st).goto task (.returned placeholder false),
            heard.map .heard)
        else some (app.goto task (.returned placeholder false), [])
      | none => some (app.goto task (.returned placeholder alive), [])
    | _ => none
  | .closed task =>
    match app.tasks[task]? with
    | some { point := .returned .., .. } => some (app.goto task .idle, [])
    | _ => none
  | .elsewhere st => some (app.withTable st, [])

end RetryApp

/-- A retry continues the download of its manifest: the file is fetched from the peer and the share
that the manifest names. -/
def Continues (trace : List RetryEvent) (manifest : Manifest) : Prop :=
  ∃ call, .started manifest call ∈ trace ∧ manifest.peer = some (hexEncode call.peer) ∧
    manifest.shareId = some call.shareId ∧ manifest.rel = some call.rel

/-- The text of a fingerprint has 64 bytes. -/
theorem length_plain_hex (fp : Fingerprint) : (Json.plain (hexEncode fp)).length = 64 := by
  have hdigit : ∀ n < 16, (String.utf8EncodeChar (Nat.digitChar n)).length = 1 := by decide
  unfold Json.plain hexEncode
  rw [String.toList_ofList, List.length_flatMap, List.map_map]
  have hone : ∀ i ∈ (List.range ((256 + 3) / 4)).reverse,
      ((fun c => (String.utf8EncodeChar c).length) ∘ fun i =>
        Nat.digitChar (fp.toNat / 16 ^ i % 16)) i = 1 := fun i _ =>
    hdigit _ (Nat.mod_lt _ (by decide))
  rw [List.map_congr_left hone]
  rfl

/-- The text of a fingerprint, encoded once more, is not decoded. -/
theorem decode_encoded_peer (fp : Fingerprint) :
    decodeFp32 (hexText (Json.plain (hexEncode fp))) = none := by
  unfold decodeFp32
  rw [hex_decode_text]
  have hlong : (Json.plain (hexEncode fp)).length ≠ 32 := by
    rw [length_plain_hex]
    decide
  exact if_pos hlong

namespace RetryApp

/-- What waits for a slot has the peer of its manifest, encoded once more. -/
def Encoded (app : RetryApp) : Prop :=
  ∀ task ∈ app.tasks, ∀ placeholder peerHex manifest inbox,
    task.point = .queued placeholder peerHex manifest inbox →
    peerHex = hexText (Json.plain (manifest.peer.getD ""))

variable {app next : RetryApp} {input : RetryInput} {emitted : List RetryEvent}

/-- A task goes to another point. -/
theorem Encoded.goto (h : app.Encoded) {task : Nat} {point : RetryPoint}
    (htasks : next.tasks = app.tasks.modify task fun t => { t with point })
    (hpoint : ∀ placeholder peerHex manifest inbox,
      point = .queued placeholder peerHex manifest inbox →
      peerHex = hexText (Json.plain (manifest.peer.getD ""))) : next.Encoded := by
  intro t hmem placeholder peerHex manifest inbox hqueued
  obtain ⟨i, hget⟩ := List.mem_iff_getElem?.mp hmem
  rw [htasks, List.getElem?_modify] at hget
  obtain ⟨before, hbefore, rfl⟩ := Option.map_eq_some_iff.mp hget
  by_cases hown : task = i
  · rw [if_pos hown] at hqueued
    exact hpoint placeholder peerHex manifest inbox hqueued
  · rw [if_neg hown] at hqueued
    exact h before (List.mem_of_getElem? hbefore) placeholder peerHex manifest inbox hqueued

/-- A task is added that does not wait for a slot. -/
theorem Encoded.spawn (h : app.Encoded) {task : RetryTask}
    (hpoint : ∀ placeholder peerHex manifest inbox,
      task.point ≠ .queued placeholder peerHex manifest inbox) :
    ({ app with tasks := app.tasks ++ [task] } : RetryApp).Encoded := by
  intro t hmem placeholder peerHex manifest inbox hqueued
  rcases List.mem_append.mp hmem with hold | hnew
  · exact h t hold placeholder peerHex manifest inbox hqueued
  · rw [List.mem_singleton.mp hnew] at hqueued
    exact absurd hqueued (hpoint placeholder peerHex manifest inbox)

/-- A task whose slot has come does not get to the peer of its manifest. -/
theorem start_retry_encoded (h : app.Encoded) {task placeholder : Nat} {peerHex inbox : String}
    {manifest : Manifest} (hpeer : peerHex = hexText (Json.plain (manifest.peer.getD "")))
    (hnext : app.startRetry task placeholder peerHex manifest inbox = (next, emitted)) :
    next.Encoded ∧ ∀ found call, .started found call ∈ emitted →
      found.peer ≠ some (hexEncode call.peer) := by
  unfold startRetry at hnext
  dsimp only at hnext
  split at hnext
  · next peer hdecode =>
    obtain ⟨rfl, rfl⟩ := Prod.mk.inj hnext
    refine ⟨h.goto rfl (by simp), fun found call hmem hsame => ?_⟩
    obtain ⟨rfl, rfl⟩ : found = manifest ∧ call = _ := by simpa using hmem
    rw [hpeer, hsame] at hdecode
    cases (decode_encoded_peer peer).symm.trans hdecode
  · split at hnext
    · obtain ⟨rfl, rfl⟩ := Prod.mk.inj hnext
      exact ⟨h.goto rfl (by simp), fun found call hmem => by simp at hmem⟩
    · obtain ⟨rfl, rfl⟩ := Prod.mk.inj hnext
      exact ⟨h.goto rfl (by simp), fun found call hmem => by simp at hmem⟩

/-- A slot comes. -/
theorem step_slot {task placeholder : Nat} {peerHex inbox : String} {manifest : Manifest}
    {rest : List Nat}
    (h : app.tasks[task]? = some { point := .queued placeholder peerHex manifest inbox, rest }) :
    step app (.slot task true) =
      some ((app.startRetry task placeholder peerHex manifest inbox).1,
        (app.startRetry task placeholder peerHex manifest inbox).2) := by
  simp only [step, h]
  rfl

/-- No step gets a retry to the peer of its manifest. -/
theorem step_encoded (h : app.Encoded) (hnext : step app input = some (next, emitted)) :
    next.Encoded ∧ ∀ found call, .started found call ∈ emitted →
      found.peer ≠ some (hexEncode call.peer) := by
  have hheard : ∀ (heard : List AppEvent) (found : Manifest) (call : PullCall),
      RetryEvent.started found call ∈ heard.map RetryEvent.heard →
      found.peer ≠ some (hexEncode call.peer) := by
    intro heard found call hmem
    simp at hmem
  cases input with simp only [step] at hnext
  | retry job jobs =>
    split at hnext
    · obtain ⟨rfl, rfl⟩ := answer_inj hnext
      exact ⟨h.spawn nofun, fun found call hmem => by simp at hmem⟩
    · obtain ⟨rfl, rfl⟩ := answer_inj hnext
      exact ⟨h, fun found call hmem => by simp at hmem⟩
  | sessionUp peerHex jobs candidates =>
    obtain ⟨-, rfl, rfl⟩ := when_answer hnext
    exact ⟨h.spawn nofun, nofun⟩
  | next task =>
    split at hnext
    · next job rest htask =>
      obtain ⟨rfl, rfl⟩ := answer_inj hnext
      refine ⟨fun t hmem placeholder peerHex manifest inbox hqueued => ?_, nofun⟩
      rcases List.mem_or_eq_of_mem_set hmem with hold | rfl
      · exact h t hold placeholder peerHex manifest inbox hqueued
      · cases hqueued
    · cases hnext
  | look task jobs =>
    split at hnext
    · split at hnext
      · obtain ⟨rfl, rfl⟩ := answer_inj hnext
        refine ⟨h.goto rfl fun placeholder peerHex manifest inbox hqueued => ?_, nofun⟩
        obtain ⟨-, rfl, rfl, -⟩ := RetryPoint.queued.inj hqueued
        rfl
      · obtain ⟨rfl, rfl⟩ := answer_inj hnext
        exact ⟨h.goto rfl nofun, nofun⟩
    · cases hnext
  | rank task place =>
    split at hnext
    · obtain ⟨rfl, rfl⟩ := answer_inj hnext
      exact ⟨h, nofun⟩
    · cases hnext
  | slot task granted =>
    split at hnext
    · next placeholder peerHex manifest inbox rest htask =>
      have hpeer := h _ (List.mem_of_getElem? htask) placeholder peerHex manifest inbox rfl
      split at hnext
      · exact start_retry_encoded h hpeer (Option.some.inj hnext)
      · obtain ⟨rfl, rfl⟩ := answer_inj hnext
        exact ⟨h.goto rfl nofun, nofun⟩
    · cases hnext
  | progress task ev =>
    split at hnext
    · obtain ⟨rfl, rfl⟩ := answer_inj hnext
      exact ⟨h.goto rfl nofun, hheard _⟩
    · obtain ⟨rfl, rfl⟩ := answer_inj hnext
      exact ⟨h.goto rfl nofun, hheard _⟩
    · cases hnext
  | finished task error =>
    split at hnext
    · split at hnext
      · split at hnext
        · obtain ⟨rfl, rfl⟩ := answer_inj hnext
          exact ⟨h.goto rfl nofun, hheard _⟩
        · obtain ⟨rfl, rfl⟩ := answer_inj hnext
          exact ⟨h.goto rfl nofun, nofun⟩
      · obtain ⟨rfl, rfl⟩ := answer_inj hnext
        exact ⟨h.goto rfl nofun, nofun⟩
    · cases hnext
  | closed task =>
    split at hnext
    · obtain ⟨rfl, rfl⟩ := answer_inj hnext
      exact ⟨h.goto rfl nofun, nofun⟩
    · cases hnext
  | elsewhere st =>
    obtain ⟨rfl, rfl⟩ := answer_inj hnext
    exact ⟨h, nofun⟩

end RetryApp

variable {st : AppState} {placeholder : Nat} {inputs : List RetryInput} {trace : List RetryEvent}
  {app : RetryApp}

/-- The app before any retry. -/
def RetryApp.new (st : AppState) (placeholder : Nat) : RetryApp :=
  { st, nextPlaceholder := placeholder, autoRetried := [], tasks := [] }

/-- No download is started from the peer of its manifest. -/
theorem starts_elsewhere (h : Exec RetryApp.step Guard.free (.new st placeholder) inputs trace app)
    {manifest : Manifest} {call : PullCall} (hmem : .started manifest call ∈ trace) :
    manifest.peer ≠ some (hexEncode call.peer) := by
  have hinv : app.Encoded ∧ ∀ found call, .started found call ∈ trace →
      found.peer ≠ some (hexEncode call.peer) := by
    clear hmem
    induction h with
    | start => exact ⟨nofun, nofun⟩
    | step _ _ hnext ih =>
      obtain ⟨hencoded, hnone⟩ := RetryApp.step_encoded ih.1 hnext
      refine ⟨hencoded, fun found call hmem => ?_⟩
      rcases List.mem_append.mp hmem with hold | hnew
      · exact ih.2 found call hold
      · exact hnone found call hnew
  exact hinv.2 manifest call hmem

/-- No retry, asked for or automatic, continues the download of its manifest. -/
theorem retry_never_continues
    (h : Exec RetryApp.step Guard.free (.new st placeholder) inputs trace app)
    (manifest : Manifest) : ¬ Continues trace manifest := by
  rintro ⟨call, hmem, hpeer, -⟩
  exact starts_elsewhere h hmem hpeer

/-- A download of two chunks, of which one is there. -/
def lostDownload : Manifest where
  fileName := "film.mkv"
  totalSize := 3000000
  chunkHashes := ["a", "b"]
  received := [true, false]
  peer := some (hexEncode (7 : Fingerprint))
  shareId := some "share"
  rel := some "film.mkv"

/-- A table without rows. -/
def noRows : AppState where
  transfers _ := none
  savedFiles _ := none
  inboxDir := "/inbox"

/-- The retry before it looks for its job. -/
def lostAsked : RetryApp where
  st := noRows
  nextPlaceholder := 9
  autoRetried := []
  tasks := [⟨.called 5, []⟩]

/-- The download is retried, and gets its slot. -/
theorem lost_retried : ∃ trace app,
    Exec RetryApp.step Guard.free (.new noRows 9)
      [.retry 5 [(5, lostDownload)], .look 0 [(5, lostDownload)], .slot 0 true] trace app ∧
    .granted lostDownload ∈ trace := by
  have hgranted : ∀ (app : RetryApp) (peerHex inbox : String),
      .granted lostDownload ∈ (app.startRetry 0 9 peerHex lostDownload inbox).2 := by
    intro app peerHex inbox
    unfold RetryApp.startRetry
    dsimp only
    split
    · exact List.mem_cons_self
    · split
      · exact List.mem_cons_self
      · exact List.mem_cons_self
  have hasked : RetryApp.step (.new noRows 9) (.retry 5 [(5, lostDownload)]) =
      some (lostAsked, [.answered 5]) := rfl
  obtain ⟨queued, hqueued, htasks⟩ : ∃ queued,
      RetryApp.step lostAsked (.look 0 [(5, lostDownload)]) = some (queued, []) ∧
      queued.tasks[0]? = some ⟨.queued 9 (hexText (Json.plain (hexEncode (7 : Fingerprint))))
        lostDownload "/inbox", []⟩ := ⟨_, rfl, rfl⟩
  exact ⟨_, _, ((Exec.start.step trivial hasked).step trivial hqueued).step trivial
    (RetryApp.step_slot htasks), List.mem_append_right _ (hgranted _ _ _)⟩

theorem retry_never_continues_sample : ∃ trace app,
    Exec RetryApp.step Guard.free (.new noRows 9)
      [.retry 5 [(5, lostDownload)], .look 0 [(5, lostDownload)], .slot 0 true] trace app ∧
    .granted lostDownload ∈ trace ∧ ¬ Continues trace lostDownload := by
  obtain ⟨trace, app, hrun, hgranted⟩ := lost_retried
  exact ⟨trace, app, hrun, hgranted, retry_never_continues hrun lostDownload⟩

theorem retry_discontinues :
    ¬ ∀ (st : AppState) (placeholder : Nat) (inputs : List RetryInput) (trace : List RetryEvent)
      (app : RetryApp), Exec RetryApp.step Guard.free (.new st placeholder) inputs trace app →
      ∀ manifest, .granted manifest ∈ trace → Continues trace manifest := by
  intro hclaim
  obtain ⟨trace, app, hrun, hgranted⟩ := lost_retried
  obtain ⟨call, hmem, hpeer, -⟩ := hclaim _ _ _ _ _ hrun lostDownload hgranted
  exact starts_elsewhere hrun hmem hpeer

end LocalTrans.Ffi
