import LocalTrans.Session.Control

/-!
# The offers a user is asked about

A push offer that needs the user's consent passes from the RPC router (`OfferReq`, policy Ask)
through a queue to the shell, which keeps the answering half of the offer's channel in
`pending_offers` until `respond_offer`, a watchdog or another insertion takes it out. Both shells,
desktop and FFI, key that table by the job id alone, which every peer counts from 1.

`OffersSeparate` says what the user may expect: an answer reaches the offer it was shown for, and
no offer disturbs an offer of another peer. `offers_separate_iff` is the exact condition.
-/

namespace LocalTrans

open Foundation

/-- An offer as the user sees it: peer `P`, job `J`. -/
structure Offer where
  peer : Fingerprint
  jobId : Nat
deriving DecidableEq

/-- The two shells around the engine. -/
inductive Shell where
  | desktop
  | ffi
deriving DecidableEq

/-- What the channel of a waiting offer holds. It is `dropped` once its sending half is gone. -/
inductive Answer where
  | empty
  | sent (saveDir : Option String)
  | dropped
deriving DecidableEq

/-- The task that waits for the answer to an offer. `notified` is the permit of its `Notify`. -/
structure OfferWaiter where
  offer : Offer
  files : List OfferFile
  secs : Nat
  deadline : Nat
  extended : Bool
  notified : Bool
  answer : Answer
deriving DecidableEq

/-- `OfferAsk` on its way to the shell; `ask` names its channel. -/
structure OfferAsk where
  ask : Nat
  offer : Offer
  files : List OfferFile
  deadlineEpochMs : Nat
deriving DecidableEq

/-- The task that removes what is left of an offer three seconds after its deadline. -/
structure Watchdog where
  offer : Offer
  target : Nat
deriving DecidableEq

/-- Why the sending half of a channel was dropped. -/
inductive DropCause where
  | arrival
  | watchdog
  | response
deriving DecidableEq

/-- What happens to offers. Every event about a waiting offer names the offer it was caused by and
the offer it happened to. -/
inductive OfferEvent where
  | arrived (offer : Offer)
  | shown (offer : Offer) (files : List OfferFile) (deadlineEpochMs : Nat)
  | answered (cause target : Offer) (saveDir : Option String)
  | extended (cause target : Offer)
  | dropped (why : DropCause) (cause target : Offer)
  | refused (cause : Offer) (error : String)
  | decided (offer : Offer) (accepted : Bool) (saveDir : Option String)
      (reason : Option OfferDenyReason)
deriving DecidableEq

/-- What can happen next. `respondOffer` and `offerExtend` are the user's actions in the dialog
that was shown for the offer. -/
inductive OfferInput where
  | offerReq (offer : Offer) (files : List OfferFile)
  | receiveAsk
  | respondOffer (offer : Offer) (accepted : Bool) (saveDir : Option String)
  | offerExtend (offer : Offer)
  | watchdog (dog : Watchdog)
  | poll (ask : Nat)
  | setTrust (trust : TrustStore)
  | saveSettings (offerTimeoutSecs : Nat) (saveDir : String)
  | tick (millis : Nat)
deriving DecidableEq

/-- The state behind the dialogs. `saveDir` is the download directory of the desktop shell and the
inbox of the FFI shell. -/
structure OfferDesk where
  shell : Shell
  trust : TrustStore
  offerTimeoutSecs : Nat
  saveDir : String
  waiters : Nat → Option OfferWaiter
  nextAsk : Nat
  asks : List OfferAsk
  pending : Nat → Option Nat
  watchdogs : List Watchdog
  now : Nat

namespace OfferDesk

/-- Nothing has been offered yet. -/
def start (shell : Shell) (trust : TrustStore) (offerTimeoutSecs : Nat) (saveDir : String) :
    OfferDesk where
  shell := shell
  trust := trust
  offerTimeoutSecs := offerTimeoutSecs
  saveDir := saveDir
  waiters := fun _ => none
  nextAsk := 0
  asks := []
  pending := fun _ => none
  watchdogs := []
  now := 0

/-- Write the state of one waiting task. -/
def setWaiter (desk : OfferDesk) (ask : Nat) (waiter : Option OfferWaiter) : OfferDesk :=
  { desk with waiters := Function.update desk.waiters ask waiter }

/-- Write one entry of `pending_offers`. -/
def setPending (desk : OfferDesk) (jobId : Nat) (entry : Option Nat) : OfferDesk :=
  { desk with pending := Function.update desk.pending jobId entry }

/-- The waiting task behind the entry of a job id. -/
def owner (desk : OfferDesk) (jobId : Nat) : Option (Nat × OfferWaiter) :=
  match desk.pending jobId with
  | none => none
  | some ask =>
    match desk.waiters ask with
    | none => none
    | some waiter => some (ask, waiter)

/-- Take the entry of a job id out of the table, and leave the answer in its channel. -/
def settle (desk : OfferDesk) (jobId : Nat) (answer : Answer) : OfferDesk :=
  let removed := desk.setPending jobId none
  match desk.owner jobId with
  | some (ask, waiter) => removed.setWaiter ask (some { waiter with answer })
  | none => removed

/-- Drop the sending half in the entry of a job id. -/
def dropEntry (desk : OfferDesk) (why : DropCause) (cause : Offer) :
    OfferDesk × List OfferEvent :=
  (desk.settle cause.jobId .dropped,
    match desk.owner cause.jobId with
    | some (_, waiter) => [.dropped why cause waiter.offer]
    | none => [])

/-- The `OfferReq` arm of `spawn_rpc_router`: policies Deny and Auto decide at once, Ask starts a
waiting task and sends the question to the shell. -/
def offerReq (desk : OfferDesk) (offer : Offer) (files : List OfferFile) :
    OfferDesk × List OfferEvent :=
  match ((desk.trust.get offer.peer).map TrustedPeer.perms).getD .denied |>.push with
  | .deny => (desk, [.arrived offer, .decided offer false none (some .denied)])
  | .auto => (desk, [.arrived offer, .decided offer true (some desk.saveDir) none])
  | .ask =>
    let secs := max 1 (min desk.offerTimeoutSecs 600)
    let deadline := desk.now + secs * 1000
    let waiter : OfferWaiter :=
      { offer, files, secs, deadline, extended := false, notified := false, answer := .empty }
    ({ desk.setWaiter desk.nextAsk (some waiter) with
        nextAsk := desk.nextAsk + 1
        asks := desk.asks ++
          [{ ask := desk.nextAsk, offer, files, deadlineEpochMs := deadline }] },
      [.arrived offer])

/-- The `ask_rx` loop: put the channel into the table, start the watchdog, show the dialog. An
entry that another offer left under the job id is dropped. -/
def receiveAsk (desk : OfferDesk) (ask : OfferAsk) (rest : List OfferAsk) :
    OfferDesk × List OfferEvent :=
  let (cleared, events) := desk.dropEntry .arrival ask.offer
  ({ cleared.setPending ask.offer.jobId (some ask.ask) with
      asks := rest
      watchdogs := { offer := ask.offer, target := ask.deadlineEpochMs + 3000 } ::
        desk.watchdogs },
    events ++ [.shown ask.offer ask.files ask.deadlineEpochMs])

variable (isAbsolute : String → Bool)

/-- `ensure_save_dir_valid`. -/
def ensureSaveDirValid (saveDir : String) : Except String Unit :=
  if saveDir.isEmpty then .error "保存目录不能为空"
  else if isAbsolute saveDir then .ok ()
  else .error "保存目录必须是绝对路径"

/-- What `respond_offer` sends: the chosen directory if it is valid in the desktop shell, the
inbox in the FFI shell, nothing for a refusal. -/
def responseDir (desk : OfferDesk) (accepted : Bool) (saveDir : Option String) :
    Except String (Option String) :=
  if accepted then
    match desk.shell with
    | .desktop =>
      let dir := saveDir.getD desk.saveDir
      match ensureSaveDirValid isAbsolute dir with
      | .ok () => .ok (some dir)
      | .error error => .error error
    | .ffi => .ok (some desk.saveDir)
  else .ok none

/-- The texts of a missing entry and of an answer that comes too late. -/
def missingOffer (desk : OfferDesk) (jobId : Nat) : String :=
  match desk.shell with
  | .desktop => "未找到待答任务: " ++ toString jobId
  | .ffi => "Offer not found: " ++ toString jobId

def lateAnswer (desk : OfferDesk) : String :=
  match desk.shell with
  | .desktop => "该请求已超时或已结束"
  | .ffi => "Offer timeout"

/-- `respond_offer`: take the entry of the job id out of the table, then send the answer. The
desktop shell checks the directory in between, so a bad one drops the channel. -/
def respondOffer (desk : OfferDesk) (offer : Offer) (accepted : Bool)
    (saveDir : Option String) : OfferDesk × List OfferEvent :=
  match desk.pending offer.jobId with
  | none => (desk, [.refused offer (desk.missingOffer offer.jobId)])
  | some _ =>
    match desk.responseDir isAbsolute accepted saveDir with
    | .error error =>
      let (dropped, events) := desk.dropEntry .response offer
      (dropped, events ++ [.refused offer error])
    | .ok dir =>
      (desk.settle offer.jobId (.sent dir),
        match desk.owner offer.jobId with
        | some (_, waiter) => [.answered offer waiter.offer dir]
        | none => [.refused offer desk.lateAnswer])

/-- `offer_extend`, a command of the desktop shell. -/
def offerExtend (desk : OfferDesk) (offer : Offer) : OfferDesk × List OfferEvent :=
  match desk.pending offer.jobId with
  | none => (desk, [.refused offer (desk.missingOffer offer.jobId)])
  | some _ =>
    match desk.owner offer.jobId with
    | some (ask, waiter) =>
      if waiter.extended then (desk, [])
      else (desk.setWaiter ask (some { waiter with notified := true }),
        [.extended offer waiter.offer])
    | none => (desk, [])

/-- The `select!` of a waiting task: an answer first, then one extension, then the deadline. -/
def poll (desk : OfferDesk) (ask : Nat) (waiter : OfferWaiter) :
    Option (OfferDesk × List OfferEvent) :=
  match waiter.answer with
  | .sent (some dir) =>
    some (desk.setWaiter ask none, [.decided waiter.offer true (some dir) none])
  | .sent none | .dropped =>
    some (desk.setWaiter ask none, [.decided waiter.offer false none (some .denied)])
  | .empty =>
    if waiter.notified && !waiter.extended then
      some (desk.setWaiter ask (some { waiter with
        extended := true, notified := false, deadline := desk.now + waiter.secs * 1000 }), [])
    else if waiter.deadline ≤ desk.now then
      some (desk.setWaiter ask none, [.decided waiter.offer false none (some .timeout)])
    else none

/-- One step of the router, the shell, a waiting task or a watchdog. -/
def step (desk : OfferDesk) : OfferInput → Option (OfferDesk × List OfferEvent)
  | .offerReq offer files => some (desk.offerReq offer files)
  | .receiveAsk =>
    match desk.asks with
    | [] => none
    | ask :: rest => some (desk.receiveAsk ask rest)
  | .respondOffer offer accepted saveDir =>
    some (desk.respondOffer isAbsolute offer accepted saveDir)
  | .offerExtend offer =>
    if desk.shell = .desktop then some (desk.offerExtend offer) else none
  | .watchdog dog =>
    if dog ∈ desk.watchdogs ∧ dog.target ≤ desk.now then
      let (removed, events) := desk.dropEntry .watchdog dog.offer
      some ({ removed with watchdogs := desk.watchdogs.erase dog }, events)
    else none
  | .poll ask => (desk.waiters ask).bind (desk.poll ask)
  | .setTrust trust => some ({ desk with trust }, [])
  | .saveSettings offerTimeoutSecs saveDir =>
    some ({ desk with offerTimeoutSecs, saveDir }, [])
  | .tick millis => some ({ desk with now := desk.now + millis }, [])

end OfferDesk

/-- What the user may expect of one event: an answer and an extension reach the offer they were
given for, an answer is not lost, and an offer is dropped only by an offer of the same peer. -/
def OfferEvent.Separate : OfferEvent → Prop
  | .answered cause target _ => target = cause
  | .extended cause target => target = cause
  | .dropped why cause target => why ≠ .response ∧ target.peer = cause.peer
  | _ => True

/-- Every event keeps the offers apart. -/
def OffersSeparate (trace : List OfferEvent) : Prop :=
  ∀ event ∈ trace, event.Separate

/-- Two histories in a row keep the offers apart if both do. -/
theorem offers_separate_append {before after : List OfferEvent} :
    OffersSeparate (before ++ after) ↔ OffersSeparate before ∧ OffersSeparate after := by
  simp [OffersSeparate, or_imp, forall_and]

namespace OfferDesk

variable (isAbsolute : String → Bool)

/-- The entry under the job id of the offer, if anybody still waits behind it, is of its peer. -/
def entryOfPeer (desk : OfferDesk) (offer : Offer) : Bool :=
  (desk.owner offer.jobId).all fun (_, waiter) => waiter.offer.peer == offer.peer

/-- A directory that `respond_offer` accepts, or nobody waits any more. -/
def responseValid (desk : OfferDesk) (offer : Offer) (accepted : Bool)
    (saveDir : Option String) : Bool :=
  (desk.owner offer.jobId).isNone || (desk.responseDir isAbsolute accepted saveDir).toOption.isSome

/-- The steps on which offers are kept apart: no two peers use one job id at a time, and the user
accepts into valid directories. -/
def offerGuard : Guard OfferDesk OfferInput OfferEvent := fun _ desk input =>
  (match input with
    | .receiveAsk =>
      match desk.asks with
      | [] => true
      | ask :: _ => desk.entryOfPeer ask.offer
    | .respondOffer offer accepted saveDir =>
      desk.entryOfPeer offer && desk.responseValid isAbsolute offer accepted saveDir
    | .offerExtend offer =>
      ((desk.owner offer.jobId).all fun (_, waiter) => waiter.extended) ||
        desk.entryOfPeer offer
    | .watchdog dog => desk.entryOfPeer dog.offer
    | _ => true) = true
deriving Decidable

/-- What holds of the tables after every step: a channel in `pending_offers` is open and lies
under the job id of its offer, a question in the queue is open and in no table, and whoever waits
for an answer is in one of the two places. -/
structure DeskInv (desk : OfferDesk) : Prop where
  owned : ∀ jobId ask waiter, desk.pending jobId = some ask → desk.waiters ask = some waiter →
    waiter.offer.jobId = jobId ∧ waiter.answer = .empty
  queued : ∀ question ∈ desk.asks, ∀ waiter, desk.waiters question.ask = some waiter →
    waiter.offer = question.offer ∧ waiter.answer = .empty
  placed : ∀ ask waiter, desk.waiters ask = some waiter → waiter.answer = .empty →
    (∃ question ∈ desk.asks, question.ask = ask) ∨ desk.pending waiter.offer.jobId = some ask
  apart : ∀ question ∈ desk.asks, ∀ jobId, desk.pending jobId ≠ some question.ask
  nodup : (desk.asks.map OfferAsk.ask).Nodup
  fresh : (∀ ask waiter, desk.waiters ask = some waiter → ask < desk.nextAsk) ∧
    (∀ question ∈ desk.asks, question.ask < desk.nextAsk) ∧
    ∀ jobId ask, desk.pending jobId = some ask → ask < desk.nextAsk

section Tables

variable {isAbsolute : String → Bool} {desk : OfferDesk} {jobId ask : Nat}
  {waiter : OfferWaiter} {offer : Offer}

/-- Whose channel an entry holds. -/
theorem owner_eq_some :
    desk.owner jobId = some (ask, waiter) ↔
      desk.pending jobId = some ask ∧ desk.waiters ask = some waiter := by
  unfold owner
  cases hpending : desk.pending jobId with
  | none => simp
  | some found =>
    cases hwaiter : desk.waiters found with
    | none =>
      simp only [hwaiter, reduceCtorEq, Option.some.injEq, false_iff, not_and]
      rintro rfl
      simp [hwaiter]
    | some other =>
      simp only [hwaiter, Option.some.injEq, Prod.mk.injEq]
      constructor
      · rintro ⟨rfl, rfl⟩
        exact ⟨rfl, hwaiter⟩
      · rintro ⟨rfl, hfound⟩
        exact ⟨rfl, Option.some.inj (hwaiter.symm.trans hfound)⟩

/-- Nobody waits behind an entry. -/
theorem not_waiting_of_owner_none (h : desk.owner jobId = none)
    (hpending : desk.pending jobId = some ask) : desk.waiters ask = none := by
  cases hwaiter : desk.waiters ask with
  | none => rfl
  | some waiter =>
    have howner := owner_eq_some.mpr ⟨hpending, hwaiter⟩
    rw [h] at howner
    cases howner

/-- What settling an entry does to the tables. -/
theorem settle_spec (desk : OfferDesk) (jobId : Nat) (answer : Answer) :
    (∀ other, (desk.settle jobId answer).waiters other =
      if desk.pending jobId = some other then
        (desk.waiters other).map fun waiter => { waiter with answer }
      else desk.waiters other) ∧
    (desk.settle jobId answer).pending = Function.update desk.pending jobId none ∧
    (desk.settle jobId answer).asks = desk.asks ∧
    (desk.settle jobId answer).nextAsk = desk.nextAsk := by
  unfold settle
  dsimp only
  cases howner : desk.owner jobId with
  | none =>
    refine ⟨fun other => ?_, rfl, rfl, rfl⟩
    show desk.waiters other = _
    split
    · next hpending => simp [not_waiting_of_owner_none howner hpending]
    · rfl
  | some entry =>
    obtain ⟨ask, waiter⟩ := entry
    obtain ⟨hpending, hwaiter⟩ := owner_eq_some.mp howner
    refine ⟨fun other => ?_, rfl, rfl, rfl⟩
    by_cases hask : other = ask
    · subst hask
      simp [setWaiter, setPending, hpending, hwaiter]
    · have hother : desk.pending jobId ≠ some other := by
        rw [hpending]
        exact fun h => hask (Option.some.inj h).symm
      simp [setWaiter, setPending, hask, hother]

namespace DeskInv

theorem start (shell : Shell) (trust : TrustStore) (secs : Nat) (dir : String) :
    DeskInv (start shell trust secs dir) := by
  constructor <;> simp [OfferDesk.start]

/-- Changing a waiting task without touching its offer or its answer. -/
theorem keep (hinv : DeskInv desk) {next : OfferWaiter}
    (hwaiter : desk.waiters ask = some waiter) (hoffer : next.offer = waiter.offer)
    (hanswer : next.answer = waiter.answer) : DeskInv (desk.setWaiter ask (some next)) := by
  have hwaiters : ∀ other found, (desk.setWaiter ask (some next)).waiters other = some found →
      ∃ before, desk.waiters other = some before ∧ found.offer = before.offer ∧
        found.answer = before.answer := by
    intro other found hfound
    by_cases hask : other = ask
    · subst hask
      obtain rfl : next = found := by simpa [setWaiter] using hfound
      exact ⟨waiter, hwaiter, hoffer, hanswer⟩
    · exact ⟨found, by simpa [setWaiter, hask] using hfound, rfl, rfl⟩
  refine ⟨?_, ?_, ?_, hinv.apart, hinv.nodup, ?_, hinv.fresh.2⟩
  · intro job other found hpending hfound
    obtain ⟨before, hbefore, ho, ha⟩ := hwaiters _ _ hfound
    rw [ho, ha]
    exact hinv.owned job other before hpending hbefore
  · intro question hmem found hfound
    obtain ⟨before, hbefore, ho, ha⟩ := hwaiters _ _ hfound
    rw [ho, ha]
    exact hinv.queued question hmem before hbefore
  · intro other found hfound hempty
    obtain ⟨before, hbefore, ho, ha⟩ := hwaiters _ _ hfound
    rw [ho]
    exact hinv.placed other before hbefore (ha ▸ hempty)
  · intro other found hfound
    obtain ⟨before, hbefore, -, -⟩ := hwaiters _ _ hfound
    exact hinv.fresh.1 other before hbefore

/-- A waiting task that has decided is gone. -/
theorem finish (hinv : DeskInv desk) : DeskInv (desk.setWaiter ask none) := by
  have hwaiters : ∀ other found, (desk.setWaiter ask none).waiters other = some found →
      desk.waiters other = some found := by
    intro other found hfound
    by_cases hask : other = ask
    · simp [setWaiter, hask] at hfound
    · simpa [setWaiter, hask] using hfound
  exact ⟨fun job other found hpending hfound => hinv.owned job other found hpending
      (hwaiters _ _ hfound),
    fun question hmem found hfound => hinv.queued question hmem found (hwaiters _ _ hfound),
    fun other found hfound => hinv.placed other found (hwaiters _ _ hfound), hinv.apart,
    hinv.nodup, fun other found hfound => hinv.fresh.1 other found (hwaiters _ _ hfound),
    hinv.fresh.2⟩

/-- Taking an entry out of the table and closing its channel. -/
theorem settle (hinv : DeskInv desk) {answer : Answer} (hanswer : answer ≠ .empty) :
    DeskInv (desk.settle jobId answer) := by
  obtain ⟨hwaiters, hpending, hasks, hnext⟩ := settle_spec desk jobId answer
  -- An entry that is left was there before, under another job id.
  have hleft : ∀ job other, (desk.settle jobId answer).pending job = some other →
      desk.pending job = some other ∧ job ≠ jobId := by
    intro job other h
    rw [hpending] at h
    by_cases hjob : job = jobId
    · simp [hjob] at h
    · exact ⟨by simpa [hjob] using h, hjob⟩
  -- A channel that is still open was not behind the entry.
  have hopen : ∀ other found, (desk.settle jobId answer).waiters other = some found →
      desk.pending jobId ≠ some other → desk.waiters other = some found := by
    intro other found h hother
    rwa [hwaiters, if_neg hother] at h
  refine ⟨?_, ?_, ?_, ?_, hasks ▸ hinv.nodup, ?_, ?_, ?_⟩
  · intro job other found hentry hfound
    obtain ⟨hbefore, hjob⟩ := hleft _ _ hentry
    have hother : desk.pending jobId ≠ some other := by
      intro hsame
      have hunchanged := hwaiters other
      rw [hfound, if_pos hsame] at hunchanged
      obtain ⟨before, hwaiter, -⟩ := Option.map_eq_some_iff.mp hunchanged.symm
      have hfirst := (hinv.owned _ _ _ hsame hwaiter).1
      have hsecond := (hinv.owned _ _ _ hbefore hwaiter).1
      exact hjob (hsecond.symm.trans hfirst)
    exact hinv.owned job other found hbefore (hopen _ _ hfound hother)
  · intro question hmem found hfound
    rw [hasks] at hmem
    exact hinv.queued question hmem found
      (hopen _ _ hfound (hinv.apart question hmem jobId))
  · intro other found hfound hempty
    have hother : desk.pending jobId ≠ some other := by
      intro hsame
      rw [hwaiters, if_pos hsame] at hfound
      obtain ⟨before, -, rfl⟩ := Option.map_eq_some_iff.mp hfound
      exact hanswer hempty
    rw [hasks, hpending]
    refine (hinv.placed other found (hopen _ _ hfound hother) hempty).imp_right fun hentry => ?_
    have hjob : found.offer.jobId ≠ jobId := by
      rintro rfl
      exact hother hentry
    simpa [hjob] using hentry
  · intro question hmem job hentry
    rw [hasks] at hmem
    exact hinv.apart question hmem job (hleft _ _ hentry).1
  · intro other found hfound
    rw [hnext]
    rw [hwaiters] at hfound
    split at hfound
    · next hsame => exact hinv.fresh.2.2 jobId other hsame
    · exact hinv.fresh.1 other found hfound
  · intro question hmem
    rw [hasks] at hmem
    rw [hnext]
    exact hinv.fresh.2.1 question hmem
  · intro job other hentry
    rw [hnext]
    exact hinv.fresh.2.2 job other (hleft _ _ hentry).1

/-- A new question and the task that waits for its answer. -/
theorem offerReq (hinv : DeskInv desk) (files : List OfferFile) :
    DeskInv (desk.offerReq offer files).1 := by
  unfold OfferDesk.offerReq
  dsimp only
  split
  · exact hinv
  · exact hinv
  · -- The channel is new, so it is neither in the queue nor in the table.
    have hnew : desk.waiters desk.nextAsk = none := by
      cases hwaiter : desk.waiters desk.nextAsk with
      | none => rfl
      | some waiter => exact absurd (hinv.fresh.1 _ _ hwaiter) (by omega)
    have hold : ∀ other, other ≠ desk.nextAsk → ∀ next,
        Function.update desk.waiters desk.nextAsk next other = desk.waiters other := by
      intro other hother next
      simp [hother]
    have hself : ∀ next, Function.update desk.waiters desk.nextAsk next desk.nextAsk = next := by
      simp
    refine ⟨?_, ?_, ?_, ?_, ?_, ?_, ?_, ?_⟩
    · intro job other found hpending hfound
      have hlt := hinv.fresh.2.2 job other hpending
      exact hinv.owned job other found hpending ((hold other (by omega) _).symm.trans hfound)
    · intro question hmem found hfound
      rcases List.mem_append.mp hmem with hmem | hmem
      · have hlt := hinv.fresh.2.1 question hmem
        exact hinv.queued question hmem found ((hold _ (by omega) _).symm.trans hfound)
      · obtain rfl := List.mem_singleton.mp hmem
        obtain rfl := Option.some.inj ((hself _).symm.trans hfound)
        exact ⟨rfl, rfl⟩
    · intro other found hfound hempty
      by_cases hother : other = desk.nextAsk
      · exact .inl ⟨_, List.mem_append_right _ (List.mem_singleton_self _), hother.symm⟩
      · refine (hinv.placed other found ((hold other hother _).symm.trans hfound) hempty).imp_left ?_
        rintro ⟨question, hmem, hask⟩
        exact ⟨question, List.mem_append_left _ hmem, hask⟩
    · intro question hmem job hpending
      rcases List.mem_append.mp hmem with hmem | hmem
      · exact hinv.apart question hmem job hpending
      · obtain rfl := List.mem_singleton.mp hmem
        exact absurd (hinv.fresh.2.2 job _ hpending) (by simp)
    · rw [List.map_append, List.nodup_append]
      refine ⟨hinv.nodup, by simp, ?_⟩
      intro other hmem last hlast
      obtain ⟨question, hquestion, rfl⟩ := List.mem_map.mp hmem
      have hlt := hinv.fresh.2.1 question hquestion
      have hlast : last = desk.nextAsk := by simpa using hlast
      omega
    · intro other found hfound
      show other < desk.nextAsk + 1
      by_cases hother : other = desk.nextAsk
      · omega
      · have hlt := hinv.fresh.1 other found ((hold other hother _).symm.trans hfound)
        omega
    · intro question hmem
      show question.ask < desk.nextAsk + 1
      rcases List.mem_append.mp hmem with hmem | hmem
      · have hlt := hinv.fresh.2.1 question hmem
        omega
      · obtain rfl := List.mem_singleton.mp hmem
        exact Nat.lt_succ_self _
    · intro job other hpending
      have hlt := hinv.fresh.2.2 job other hpending
      exact Nat.lt_succ_of_lt hlt

/-- The shell takes a question out of the queue and its channel into the table. -/
theorem receiveAsk (hinv : DeskInv desk) {question : OfferAsk} {rest : List OfferAsk}
    (hasks : desk.asks = question :: rest) : DeskInv (desk.receiveAsk question rest).1 := by
  have hhead : question ∈ desk.asks := by simp [hasks]
  have hrest : ∀ other ∈ rest, other ∈ desk.asks ∧ other.ask ≠ question.ask := by
    intro other hmem
    have hnodup := hinv.nodup
    rw [hasks, List.map_cons, List.nodup_cons] at hnodup
    refine ⟨by simp [hasks, hmem], fun hask => hnodup.1 ?_⟩
    exact List.mem_map.mpr ⟨other, hmem, hask⟩
  have hcleared : DeskInv (desk.settle question.offer.jobId .dropped) := hinv.settle (by simp)
  obtain ⟨-, hpending, hqueue, hnext⟩ := settle_spec desk question.offer.jobId .dropped
  have hentry : ∀ job ask, Function.update (desk.settle question.offer.jobId .dropped).pending
      question.offer.jobId (some question.ask) job = some ask →
      (job = question.offer.jobId ∧ ask = question.ask) ∨
        (desk.settle question.offer.jobId .dropped).pending job = some ask := by
    intro job ask h
    by_cases hjob : job = question.offer.jobId
    · subst hjob
      exact .inl ⟨rfl, by simpa using h.symm⟩
    · exact .inr (by simpa [hjob] using h)
  refine ⟨?_, ?_, ?_, ?_, ?_, hcleared.fresh.1, ?_, ?_⟩
  · intro job ask found h hfound
    rcases hentry job ask h with ⟨rfl, rfl⟩ | hbefore
    · obtain ⟨hoffer, hempty⟩ := hcleared.queued question (hqueue ▸ hhead) found hfound
      exact ⟨congrArg Offer.jobId hoffer, hempty⟩
    · exact hcleared.owned job ask found hbefore hfound
  · intro other hmem found hfound
    exact hcleared.queued other (hqueue ▸ (hrest other hmem).1) found hfound
  · intro ask found hfound hempty
    show (∃ other ∈ rest, other.ask = ask) ∨ Function.update
      (desk.settle question.offer.jobId .dropped).pending question.offer.jobId
        (some question.ask) found.offer.jobId = some ask
    rcases hcleared.placed ask found hfound hempty with ⟨other, hmem, hask⟩ | hbefore
    · rw [hqueue, hasks] at hmem
      rcases List.mem_cons.mp hmem with rfl | hmem
      · subst hask
        have hoffer := (hcleared.queued _ (hqueue ▸ hhead) found hfound).1
        exact .inr (by simp [hoffer])
      · exact .inl ⟨other, hmem, hask⟩
    · have hjob : found.offer.jobId ≠ question.offer.jobId := by
        intro hjob
        rw [hpending, hjob] at hbefore
        simp at hbefore
      exact .inr (by simpa [hjob] using hbefore)
  · intro other hmem job h
    obtain ⟨hqueued, hother⟩ := hrest other hmem
    rcases hentry job _ h with ⟨-, hask⟩ | hbefore
    · exact hother hask
    · exact hcleared.apart other (hqueue ▸ hqueued) job hbefore
  · have hnodup := hinv.nodup
    rw [hasks, List.map_cons, List.nodup_cons] at hnodup
    exact hnodup.2
  · intro other hmem
    exact hcleared.fresh.2.1 other (hqueue ▸ (hrest other hmem).1)
  · intro job ask h
    rcases hentry job ask h with ⟨-, rfl⟩ | hbefore
    · exact hcleared.fresh.2.1 question (hqueue ▸ hhead)
    · exact hcleared.fresh.2.2 job ask hbefore

end DeskInv

/-- Every step keeps the tables in order. -/
theorem desk_inv_step {input : OfferInput} {next : OfferDesk} {emitted : List OfferEvent}
    (hinv : DeskInv desk) (hstep : desk.step isAbsolute input = some (next, emitted)) :
    DeskInv next := by
  cases input with
  | offerReq offer files =>
    obtain rfl : (desk.offerReq offer files).1 = next :=
      congrArg Prod.fst (Option.some.inj hstep)
    exact hinv.offerReq files
  | receiveAsk =>
    simp only [step] at hstep
    split at hstep
    · cases hstep
    · next question rest hasks =>
      cases hstep
      exact hinv.receiveAsk hasks
  | respondOffer offer accepted saveDir =>
    simp only [step, Option.some.injEq] at hstep
    unfold respondOffer at hstep
    split at hstep
    · cases hstep
      exact hinv
    · split at hstep <;> cases hstep
      · exact hinv.settle (by simp)
      · exact hinv.settle (by simp)
  | offerExtend offer =>
    simp only [step] at hstep
    obtain ⟨-, hstep⟩ := of_when hstep
    simp only [Option.some.injEq] at hstep
    unfold offerExtend at hstep
    split at hstep
    · cases hstep
      exact hinv
    · split at hstep
      · next ask waiter howner =>
        split at hstep
        · cases hstep
          exact hinv
        · cases hstep
          exact hinv.keep (owner_eq_some.mp howner).2 rfl rfl
      · cases hstep
        exact hinv
  | watchdog dog =>
    simp only [step] at hstep
    obtain ⟨-, hstep⟩ := of_when hstep
    cases hstep
    have hsettled : DeskInv (desk.settle dog.offer.jobId .dropped) := hinv.settle (by simp)
    exact { hsettled with }
  | poll ask =>
    obtain ⟨waiter, hwaiter, hpoll⟩ := Option.bind_eq_some_iff.mp hstep
    unfold poll at hpoll
    split at hpoll
    · cases hpoll
      exact hinv.finish
    · cases hpoll
      exact hinv.finish
    · cases hpoll
      exact hinv.finish
    · split at hpoll
      · cases hpoll
        exact hinv.keep hwaiter rfl rfl
      · obtain ⟨-, hpoll⟩ := of_when hpoll
        cases hpoll
        exact hinv.finish
  | setTrust | saveSettings | tick =>
    cases hstep
    exact { hinv with }

/-- Whose entry it is, in terms of the waiting task behind it. -/
theorem entry_of_peer_iff (howner : desk.owner offer.jobId = some (ask, waiter)) :
    desk.entryOfPeer offer = true ↔ waiter.offer.peer = offer.peer := by
  simp [entryOfPeer, howner]

/-- Under one job id, an entry of the right peer is the entry of the offer. -/
theorem offer_eq_iff (hinv : DeskInv desk) (howner : desk.owner offer.jobId = some (ask, waiter)) :
    waiter.offer = offer ↔ waiter.offer.peer = offer.peer := by
  obtain ⟨hpending, hwaiter⟩ := owner_eq_some.mp howner
  have hjob := (hinv.owned _ _ _ hpending hwaiter).1
  refine ⟨congrArg Offer.peer, fun hpeer => ?_⟩
  cases hoffer : waiter.offer
  cases offer
  simp_all

/-- Dropping an entry keeps the offers apart exactly if the entry is of the peer, unless it is a
response that drops it. -/
theorem drop_entry_separate_iff {why : DropCause} (hwhy : why ≠ .response) :
    OffersSeparate (desk.dropEntry why offer).2 ↔ desk.entryOfPeer offer = true := by
  unfold dropEntry
  cases howner : desk.owner offer.jobId with
  | none => simp [OffersSeparate, entryOfPeer, howner]
  | some entry =>
    obtain ⟨ask, waiter⟩ := entry
    rw [entry_of_peer_iff howner]
    simp [OffersSeparate, OfferEvent.Separate, hwhy]

/-- A command of the user keeps the offers apart exactly if its answer is valid and the entry it
finds is of the peer. -/
theorem respond_offer_separate_iff (hinv : DeskInv desk) {accepted : Bool}
    {saveDir : Option String} :
    OffersSeparate (desk.respondOffer isAbsolute offer accepted saveDir).2 ↔
      (desk.entryOfPeer offer && desk.responseValid isAbsolute offer accepted saveDir) = true := by
  cases howner : desk.owner offer.jobId with
  | none =>
    -- Nobody waits behind the entry: nothing can be answered or dropped.
    unfold respondOffer dropEntry
    simp only [howner, entryOfPeer, responseValid, Option.all_none, Option.isNone_none,
      Bool.true_or, Bool.and_true, iff_true]
    split
    · simp [OffersSeparate, OfferEvent.Separate]
    · split <;> simp [OffersSeparate, OfferEvent.Separate]
  | some entry =>
    obtain ⟨ask, waiter⟩ := entry
    have hpending := (owner_eq_some.mp howner).1
    rw [Bool.and_eq_true, entry_of_peer_iff howner, ← offer_eq_iff hinv howner]
    unfold respondOffer dropEntry
    simp only [hpending, howner, responseValid, Option.isNone_some, Bool.false_or]
    cases hdir : desk.responseDir isAbsolute accepted saveDir with
    | error error => simp [OffersSeparate, OfferEvent.Separate, Except.toOption]
    | ok dir => simp [OffersSeparate, OfferEvent.Separate, Except.toOption]

/-- An extension keeps the offers apart exactly if it has no effect or finds the offer's entry. -/
theorem offer_extend_separate_iff (hinv : DeskInv desk) :
    OffersSeparate (desk.offerExtend offer).2 ↔
      (((desk.owner offer.jobId).all fun (_, waiter) => waiter.extended) ||
        desk.entryOfPeer offer) = true := by
  cases howner : desk.owner offer.jobId with
  | none =>
    unfold offerExtend
    simp only [howner]
    split <;> simp [OffersSeparate, OfferEvent.Separate]
  | some entry =>
    obtain ⟨ask, waiter⟩ := entry
    have hpending := (owner_eq_some.mp howner).1
    rw [Bool.or_eq_true, entry_of_peer_iff howner, ← offer_eq_iff hinv howner]
    unfold offerExtend
    simp only [hpending, howner]
    split
    · next hextended => simp [OffersSeparate, hextended]
    · next hextended => simp [OffersSeparate, OfferEvent.Separate, hextended]

/-- A step keeps the offers apart exactly if it meets the guard. -/
theorem step_separate_iff {trace emitted : List OfferEvent} {input : OfferInput}
    {next : OfferDesk} (hinv : DeskInv desk)
    (hstep : desk.step isAbsolute input = some (next, emitted)) :
    OffersSeparate emitted ↔ offerGuard isAbsolute trace desk input := by
  cases input with
  | offerReq offer files =>
    obtain rfl : (desk.offerReq offer files).2 = emitted :=
      congrArg Prod.snd (Option.some.inj hstep)
    unfold OfferDesk.offerReq
    dsimp only
    split <;> simp [OffersSeparate, OfferEvent.Separate, offerGuard]
  | receiveAsk =>
    simp only [step] at hstep
    split at hstep
    · cases hstep
    · next question rest hasks =>
      have hdrop : OffersSeparate (desk.dropEntry .arrival question.offer).2 ↔
          desk.entryOfPeer question.offer = true := drop_entry_separate_iff (by simp)
      obtain rfl : (desk.receiveAsk question rest).2 = emitted :=
        congrArg Prod.snd (Option.some.inj hstep)
      rw [offerGuard, hasks]
      show OffersSeparate ((desk.dropEntry .arrival question.offer).2 ++ [_]) ↔ _
      rw [offers_separate_append, hdrop]
      simp [OffersSeparate, OfferEvent.Separate]
  | respondOffer offer accepted saveDir =>
    obtain rfl : (desk.respondOffer isAbsolute offer accepted saveDir).2 = emitted :=
      congrArg Prod.snd (Option.some.inj hstep)
    exact respond_offer_separate_iff hinv
  | offerExtend offer =>
    simp only [step] at hstep
    obtain ⟨-, hstep⟩ := of_when hstep
    obtain rfl : (desk.offerExtend offer).2 = emitted :=
      congrArg Prod.snd (Option.some.inj hstep)
    exact offer_extend_separate_iff hinv
  | watchdog dog =>
    simp only [step] at hstep
    obtain ⟨-, hstep⟩ := of_when hstep
    obtain rfl : (desk.dropEntry .watchdog dog.offer).2 = emitted :=
      congrArg Prod.snd (Option.some.inj hstep)
    exact drop_entry_separate_iff (by simp)
  | poll ask =>
    obtain ⟨waiter, hwaiter, hpoll⟩ := Option.bind_eq_some_iff.mp hstep
    unfold poll at hpoll
    split at hpoll
    · cases hpoll
      simp [OffersSeparate, OfferEvent.Separate, offerGuard]
    · cases hpoll
      simp [OffersSeparate, OfferEvent.Separate, offerGuard]
    · cases hpoll
      simp [OffersSeparate, OfferEvent.Separate, offerGuard]
    · split at hpoll
      · cases hpoll
        simp [OffersSeparate, offerGuard]
      · obtain ⟨-, hpoll⟩ := of_when hpoll
        cases hpoll
        simp [OffersSeparate, OfferEvent.Separate, offerGuard]
  | setTrust | saveSettings | tick =>
    cases hstep
    simp [OffersSeparate, offerGuard]

/-- The tables are in order in every reachable state. -/
theorem desk_inv {guard : Guard OfferDesk OfferInput OfferEvent} {shell : Shell}
    {trust : TrustStore} {secs : Nat} {dir : String} {inputs : List OfferInput}
    {trace : List OfferEvent} {last : OfferDesk}
    (h : Exec (step isAbsolute) guard (start shell trust secs dir) inputs trace last) :
    DeskInv last := by
  induction h with
  | start => exact DeskInv.start shell trust secs dir
  | step _ _ hstep ih => exact desk_inv_step ih hstep

/-- In either shell, for any offers of any peers and any order of events: offers are kept apart
exactly in the runs in which every step finds an entry of the right peer under the job id, and the
user accepts into valid directories. An offer that was shown and still waits is the one in the
table under its job id, so an answer cannot miss it. -/
theorem offers_separate_iff {shell : Shell} {trust : TrustStore} {secs : Nat} {dir : String}
    {inputs : List OfferInput} {trace : List OfferEvent} {last : OfferDesk}
    (h : Exec (step isAbsolute) Guard.free (start shell trust secs dir) inputs trace last) :
    (OffersSeparate trace ↔
      Exec (step isAbsolute) (offerGuard isAbsolute) (start shell trust secs dir) inputs trace
        last) ∧
      ∀ ask waiter, last.waiters ask = some waiter → waiter.answer = .empty →
        (∃ question ∈ last.asks, question.ask = ask) ∨
          last.pending waiter.offer.jobId = some ask := by
  refine ⟨⟨fun hsafe => ?_, fun hguarded => ?_⟩, (desk_inv h).placed⟩
  · refine h.guarded (fun before after hall => (offers_separate_append.mp hall).1) ?_ hsafe
    intro _ _ _ _ _ _ hbefore hstep hafter
    exact (step_separate_iff (desk_inv hbefore) hstep).mp (offers_separate_append.mp hafter).2
  · clear h
    induction hguarded with
    | start => simp [OffersSeparate]
    | step hbefore hguard hstep ih =>
      have hnew := (step_separate_iff (desk_inv hbefore) hstep).mpr hguard
      exact offers_separate_append.mpr ⟨ih, hnew⟩

end Tables

/-- Peers 7 and 9 are trusted and have to ask. -/
def sampleTrust : TrustStore where
  peers :=
    [{ fingerprint := 7, name := "laptop", aliasName := "", pairedAt := 0, perms := .default },
      { fingerprint := 9, name := "tablet", aliasName := "", pairedAt := 0, perms := .default }]

/-- The one file that is offered. -/
def sampleFiles : List OfferFile :=
  [{ name := "a.txt", size := 3, relDir := "", hash := none }]

/-- Both peers make an offer, and the user accepts the first. -/
def answeredApart (first second : Nat) : List OfferInput :=
  [.offerReq ⟨7, first⟩ sampleFiles, .receiveAsk, .offerReq ⟨9, second⟩ sampleFiles, .receiveAsk,
    .respondOffer ⟨7, first⟩ true none, .poll 0]

/-- Absolute paths of a Unix system. -/
def startsAtRoot (path : String) : Bool :=
  path.toList.head? == some '/'

/-- With job ids of their own, the answer reaches the offer of peer 7. -/
theorem separate_with_own_job_ids :
    let trace := Machine.history (step startsAtRoot) (offerGuard startsAtRoot)
      (start .desktop sampleTrust 60 "/home/d") (answeredApart 1 2)
    .decided ⟨7, 1⟩ true (some "/home/d") none ∈ trace ∧ OffersSeparate trace := by
  obtain ⟨last, hexec⟩ := exec_of_run (step startsAtRoot) (offerGuard startsAtRoot)
    (start .desktop sampleTrust 60 "/home/d") (answeredApart 1 2) (by decide)
  exact ⟨by decide, (offers_separate_iff hexec.toFree).1.mpr hexec⟩

/-- When both peers count from 1, the second offer denies the first, and the answer to the first
accepts the second. -/
theorem not_separate_with_equal_job_ids :
    ¬ ∀ (shell : Shell) (trust : TrustStore) (secs : Nat) (dir : String)
        (inputs : List OfferInput) (trace : List OfferEvent) (last : OfferDesk),
      Exec (step startsAtRoot) Guard.free (start shell trust secs dir) inputs trace last →
        OffersSeparate trace := by
  intro hsafe
  obtain ⟨last, hexec⟩ := exec_of_run (step startsAtRoot) Guard.free
    (start .desktop sampleTrust 60 "/home/d") (answeredApart 1 1) (by decide)
  have hanswered := hsafe _ _ _ _ _ _ _ hexec (.answered ⟨7, 1⟩ ⟨9, 1⟩ (some "/home/d"))
    (by decide)
  exact absurd hanswered (by simp [OfferEvent.Separate])

end OfferDesk

end LocalTrans
