import LocalTrans.Foundation.Execution
import LocalTrans.Foundation.Places
import LocalTrans.Share.Listing

/-!
# What a peer may do to shared directories

The arms of `spawn_rpc_router` for `SharesReq`, `ListReq`, `ShareRename`, `ShareMkdir` and
`ShareDelete`. The router looks at the permissions when it takes a message up. A deletion waits in a
task of its own for the answer to its prompt, and resolves the path again then. `effects_allowed` says
where everything that happens for a peer comes from, and `requests_answered` that every request is
answered once.
-/

namespace LocalTrans

/-- The permissions that the router finds. -/
def TrustStore.permsOf (trust : TrustStore) (peer : Fingerprint) : Perms :=
  ((trust.get peer).map TrustedPeer.perms).getD .denied

namespace Share

open Foundation

/-- `DeleteAsk`, without the channel of the answer. -/
structure DeleteAsk where
  askId : Nat
  peer : Fingerprint
  shareId : String
  name : String
  isDir : Bool
  entryCount : Nat
  deadlineEpochMs : Nat

/-- What has become of the sender of an answer: the shell has it, the user has answered, or it was
dropped. -/
inductive AnswerSlot where
  | shell
  | given (allow : Bool)
  | dropped
deriving DecidableEq

/-- Where the task of a prompt stands: it holds its permit and waits for the answer, it deletes, or
it has replied. -/
inductive PromptPoint where
  | waiting
  | deleting
  | ended
deriving DecidableEq

/-- A prompt and the task that waits for its answer. -/
structure Prompt where
  ask : DeleteAsk
  path : String
  msgId : Nat
  answer : AnswerSlot
  point : PromptPoint

/-- Where the router stands: it takes the next message, it serves one of a peer that may browse, or it
counts what a deletion would remove. -/
inductive DeskPoint where
  | idle
  | serving (peer : Fingerprint) (msg : ControlMsg)
  | counting (peer : Fingerprint) (shareId path : String) (msgId : Nat) (isDir : Bool)

/-- The router with what it reads and the prompts so far: the one in place `i` has the id `i + 1`.
Those the shell did not take have ended. -/
structure ShareDesk where
  trust : TrustStore
  shares : List ShareDef
  tree : LinkedTree
  nowMs : Nat
  router : DeskPoint
  prompts : List Prompt

/-- What happens in one step: the trust store, the shared directories and the tree change, time passes,
the user answers, the watchdog of the shell gives a prompt up, the router and the tasks go on. -/
inductive DeskInput where
  | trust (store : TrustStore)
  | around (shares : List ShareDef) (tree : LinkedTree) (ms : Nat)
  | message (peer : Fingerprint) (msg : ControlMsg)
  | serve (readDir : Location → Option (List (Option DirEntry)))
  | counted (entryCount consentTimeoutSecs : Nat) (taken : Bool)
  | respond (place : Nat) (allow : Bool)
  | watchdog (place : Nat)
  | wake (place : Nat)
  | delete (place : Nat)

inductive DeskEvent where
  | trusted (store : TrustStore)
  | received (peer : Fingerprint) (msg : ControlMsg)
  | replied (peer : Fingerprint) (msg : ControlMsg)
  | prompted (ask : DeleteAsk)
  | responded (askId : Nat) (allow : Bool)
  | performed (askId : Option Nat) (peer : Fingerprint) (shareId : String) (op : ShareOp)

/-- The last segment of a path, `path.rsplit('/').next()`. -/
def lastSegment (path : String) : String :=
  String.ofList (path.toList.reverse.takeWhile (· ≠ '/')).reverse

/-- The reply to an operation. -/
def opResult (result : Except String Unit) (msgId : Nat) : ControlMsg :=
  match result with
  | .ok () => .shareOpResult true none msgId
  | .error text => .shareOpResult false (some text) msgId

/-- The reply to a message of a peer that may not browse. -/
def denial : ControlMsg → Option ControlMsg
  | .sharesReq msgId => some (.sharesResp [] msgId)
  | .listReq _ _ _ msgId => some (.listResp [] none msgId)
  | .shareRename _ _ _ msgId | .shareMkdir _ _ msgId | .shareDelete _ _ msgId =>
    some (opResult (.error "无操作权限") msgId)
  | _ => none

/-- The permits of `delete_permits`. -/
def maxPrompts : Nat := 8

namespace ShareDesk

/-- The router at its start. -/
def start (trust : TrustStore) (shares : List ShareDef) (tree : LinkedTree) : ShareDesk where
  trust := trust
  shares := shares
  tree := tree
  nowMs := 0
  router := .idle
  prompts := []

/-- The router takes up a message. -/
def receive (s : ShareDesk) (peer : Fingerprint) (msg : ControlMsg) :
    Option (ShareDesk × List DeskEvent) :=
  (denial msg).map fun reply =>
    if (s.trust.permsOf peer).browse then
      ({ s with router := .serving peer msg }, [.received peer msg])
    else (s, [.received peer msg, .replied peer reply])

/-- The router sends the reply, and takes the next message. -/
def reply (s : ShareDesk) (peer : Fingerprint) (msg : ControlMsg) : ShareDesk × List DeskEvent :=
  ({ s with router := .idle }, [.replied peer msg])

/-- An operation that needs no prompt. -/
def operate (system : TreeSystem) (s : ShareDesk) (peer : Fingerprint) (shareId : String)
    (op : ShareOp) (msgId : Nat) : ShareDesk × List DeskEvent :=
  let (tree, result) := op.run system s.tree s.shares shareId
  ({ s with router := .idle, tree }, [.performed none peer shareId op,
    .replied peer (opResult (result.mapError ShareError.text) msgId)])

/-- The router serves a message of a peer that may browse. -/
def serve (system : TreeSystem) (readDir : Location → Option (List (Option DirEntry)))
    (s : ShareDesk) (peer : Fingerprint) : ControlMsg → Option (ShareDesk × List DeskEvent)
  | .sharesReq msgId =>
    let shares := s.shares.map fun share => { id := share.id, aliasName := share.aliasName }
    some (s.reply peer (.sharesResp shares msgId))
  | .listReq shareId path cursor msgId =>
    let (entries, next) :=
      match listDir system readDir s.tree s.shares shareId path cursor 200 with
      | .ok page => page
      | .error _ => ([], none)
    some (s.reply peer (.listResp entries next msgId))
  | .shareRename shareId path newName msgId =>
    some (s.operate system peer shareId (.rename path newName) msgId)
  | .shareMkdir shareId path msgId => some (s.operate system peer shareId (.mkdir path) msgId)
  | .shareDelete shareId path msgId =>
    match resolve system s.tree s.shares shareId path with
    | .error error => some (s.reply peer (opResult (.error error.text) msgId))
    | .ok resolved =>
      let isDir := system.isDir s.tree (pathOf resolved)
      some ({ s with router := .counting peer shareId path msgId isDir }, [])
  | _ => none

/-- The prompt for a deletion, if a permit is left and the shell takes it. -/
def prompt (s : ShareDesk) (peer : Fingerprint) (shareId path : String) (msgId : Nat)
    (isDir : Bool) (entryCount secs : Nat) (taken : Bool) : ShareDesk × List DeskEvent :=
  if maxPrompts ≤ s.prompts.countP (·.point = .waiting) then
    s.reply peer (opResult (.error "待确认删除过多, 请稍后再试") msgId)
  else
    let ask : DeleteAsk :=
      { askId := s.prompts.length + 1, peer, shareId, name := lastSegment path, isDir,
        entryCount := if isDir then entryCount else 0,
        deadlineEpochMs := s.nowMs + max 1 (min secs 600) * 1000 }
    if taken then
      ({ s with router := .idle, prompts := s.prompts ++ [⟨ask, path, msgId, .shell, .waiting⟩] },
        [.prompted ask])
    else
      ({ s with router := .idle, prompts := s.prompts ++ [⟨ask, path, msgId, .dropped, .ended⟩] },
        [.replied peer (opResult (.error "对方未确认删除") msgId)])

/-- The prompt in a place changes. -/
def setPrompt (s : ShareDesk) (place : Nat) (prompt : Prompt) : ShareDesk :=
  { s with prompts := s.prompts.set place prompt }

/-- The task of a prompt that is not allowed replies. -/
def refuse (s : ShareDesk) (place : Nat) (prompt : Prompt) : ShareDesk × List DeskEvent :=
  (s.setPrompt place { prompt with point := .ended },
    [.replied prompt.ask.peer (opResult (.error "对方未确认删除") prompt.msgId)])

/-- The task of a prompt looks for the answer first and at the deadline then. -/
def wake (s : ShareDesk) (place : Nat) (prompt : Prompt) : Option (ShareDesk × List DeskEvent) :=
  match prompt.point with
  | .waiting =>
    match prompt.answer with
    | .given true => some (s.setPrompt place { prompt with point := .deleting }, [])
    | .given false | .dropped => some (s.refuse place prompt)
    | .shell => if prompt.ask.deadlineEpochMs ≤ s.nowMs then some (s.refuse place prompt) else none
  | _ => none

/-- The task of a prompt that was allowed deletes and replies. -/
def delete (system : TreeSystem) (s : ShareDesk) (place : Nat) (prompt : Prompt) :
    Option (ShareDesk × List DeskEvent) :=
  match prompt.point with
  | .deleting =>
    let (tree, result) := (ShareOp.delete prompt.path).run system s.tree s.shares prompt.ask.shareId
    some ({ s.setPrompt place { prompt with point := .ended } with tree },
      [.performed (some prompt.ask.askId) prompt.ask.peer prompt.ask.shareId (.delete prompt.path),
        .replied prompt.ask.peer (opResult (result.mapError ShareError.text) prompt.msgId)])
  | _ => none

/-- One step. -/
def step (system : TreeSystem) : Machine ShareDesk DeskInput DeskEvent := fun s input =>
  match input with
  | .trust store => some ({ s with trust := store }, [.trusted store])
  | .around shares tree ms => some ({ s with shares, tree, nowMs := s.nowMs + ms }, [])
  | .message peer msg =>
    match s.router with
    | .idle => s.receive peer msg
    | _ => none
  | .serve readDir =>
    match s.router with
    | .serving peer msg => s.serve system readDir peer msg
    | _ => none
  | .counted entryCount secs taken =>
    match s.router with
    | .counting peer shareId path msgId isDir =>
      some (s.prompt peer shareId path msgId isDir entryCount secs taken)
    | _ => none
  | .respond place allow =>
    match s.prompts[place]? with
    | some prompt =>
      if prompt.answer = .shell then
        some (s.setPrompt place { prompt with answer := .given allow },
          [.responded prompt.ask.askId allow])
      else some (s, [])
    | none => some (s, [])
  | .watchdog place =>
    match s.prompts[place]? with
    | some prompt =>
      if prompt.answer = .shell ∧ prompt.ask.deadlineEpochMs + 3000 ≤ s.nowMs then
        some (s.setPrompt place { prompt with answer := .dropped }, [])
      else none
    | none => none
  | .wake place => (s.prompts[place]?).bind (s.wake place)
  | .delete place => (s.prompts[place]?).bind (s.delete system place)

end ShareDesk

/-- The id of a request, which its reply carries. -/
def requestId : ControlMsg → Nat
  | .sharesReq msgId | .listReq _ _ _ msgId | .shareRename _ _ _ msgId | .shareMkdir _ _ msgId
  | .shareDelete _ _ msgId => msgId
  | _ => 0

/-- The request that the router has taken up and not yet answered. -/
def DeskPoint.request : DeskPoint → Option (Fingerprint × ControlMsg)
  | .idle => none
  | .serving peer msg => some (peer, msg)
  | .counting peer shareId path msgId _ => some (peer, .shareDelete shareId path msgId)

/-- The request for a deletion. -/
def Prompt.request (prompt : Prompt) : Fingerprint × ControlMsg :=
  (prompt.ask.peer, .shareDelete prompt.ask.shareId prompt.path prompt.msgId)

/-- The event discloses a share, asks the user or changes the tree. -/
def Telling : DeskEvent → Prop
  | .replied _ (.sharesResp shares _) => shares ≠ []
  | .replied _ (.listResp entries next _) => entries ≠ [] ∨ next ≠ none
  | .performed .. | .prompted _ => True
  | _ => False

/-- The event is what a request asks for. -/
def Serves (peer : Fingerprint) (msg : ControlMsg) : DeskEvent → Prop
  | .replied found (.sharesResp _ msgId) => found = peer ∧ msg = .sharesReq msgId
  | .replied found (.listResp _ _ msgId) =>
    found = peer ∧ ∃ shareId path cursor, msg = .listReq shareId path cursor msgId
  | .performed none found shareId (.rename path newName) =>
    found = peer ∧ ∃ msgId, msg = .shareRename shareId path newName msgId
  | .performed none found shareId (.mkdir path) =>
    found = peer ∧ ∃ msgId, msg = .shareMkdir shareId path msgId
  | .performed (some _) found shareId (.delete path) =>
    found = peer ∧ ∃ msgId, msg = .shareDelete shareId path msgId
  | .prompted ask => ask.peer = peer ∧
    ∃ path msgId, msg = .shareDelete ask.shareId path msgId ∧ ask.name = lastSegment path
  | _ => False

/-- The trust store after a history. -/
def trustAfter (first : TrustStore) (trace : List DeskEvent) : TrustStore :=
  trace.foldl (fun trust event => match event with
    | .trusted store => store
    | _ => trust) first

/-- A peer has asked for something, and could browse when the router looked. -/
def Allowed (first : TrustStore) (before : List DeskEvent) (peer : Fingerprint)
    (msg : ControlMsg) : Prop :=
  ∃ start rest, before = start ++ .received peer msg :: rest ∧
    ((trustAfter first start).permsOf peer).browse = true

/-- What an event needs to have come before it: what is told or changed for a peer, a request of a
peer that could browse; a deletion, a prompt for it and the answer that allows it, and no deletion
for the same prompt; a prompt, only prompts with smaller ids. -/
structure Justified (first : TrustStore) (before : List DeskEvent) (event : DeskEvent) : Prop where
  allowed : Telling event → ∃ peer msg, Allowed first before peer msg ∧ Serves peer msg event
  confirmed : ∀ askId peer shareId op, event = .performed (some askId) peer shareId op →
    .responded askId true ∈ before ∧
    (∃ ask path, .prompted ask ∈ before ∧ ask.askId = askId ∧ ask.peer = peer ∧
      ask.shareId = shareId ∧ op = .delete path ∧ ask.name = lastSegment path) ∧
    ∀ peer' shareId' op', .performed (some askId) peer' shareId' op' ∉ before
  later : ∀ ask other, event = .prompted ask → .prompted other ∈ before → other.askId < ask.askId

namespace ShareDesk

/-- What one step does. -/
inductive Move (s : ShareDesk) : ShareDesk → List DeskEvent → Prop where
  | trust (store : TrustStore) : Move s { s with trust := store } [.trusted store]
  | around (shares : List ShareDef) (tree : LinkedTree) (nowMs : Nat) {router : DeskPoint}
      (hrouter : router.request = s.router.request) :
      Move s { s with shares, tree, nowMs, router } []
  | decline {peer : Fingerprint} {msg reply : ControlMsg} (hid : respMsgId reply = requestId msg)
      (htells : ¬ Telling (.replied peer reply)) : Move s s [.received peer msg, .replied peer reply]
  | take {peer : Fingerprint} {msg : ControlMsg} (hidle : s.router.request = none)
      (hbrowse : (s.trust.permsOf peer).browse = true) :
      Move s { s with router := .serving peer msg } [.received peer msg]
  | finish {peer : Fingerprint} {msg reply : ControlMsg} (effects : List DeskEvent)
      (tree : LinkedTree) (hrouter : s.router.request = some (peer, msg))
      (hid : respMsgId reply = requestId msg)
      (heffects : effects = [] ∨ ∃ shareId op, effects = [.performed none peer shareId op] ∧
        Serves peer msg (.performed none peer shareId op))
      (hserves : Telling (.replied peer reply) → Serves peer msg (.replied peer reply)) :
      Move s { s with router := .idle, tree } (effects ++ [.replied peer reply])
  | ask {prompt : Prompt} (hrouter : s.router.request = some prompt.request)
      (hroom : s.prompts.countP (·.point = .waiting) < maxPrompts)
      (hid : prompt.ask.askId = s.prompts.length + 1)
      (hname : prompt.ask.name = lastSegment prompt.path)
      (hanswer : prompt.answer = .shell) (hpoint : prompt.point = .waiting) :
      Move s { s with router := .idle, prompts := s.prompts ++ [prompt] } [.prompted prompt.ask]
  | untaken {prompt : Prompt} (text : String) (hrouter : s.router.request = some prompt.request)
      (hid : prompt.ask.askId = s.prompts.length + 1) (hanswer : prompt.answer = .dropped)
      (hpoint : prompt.point = .ended) :
      Move s { s with router := .idle, prompts := s.prompts ++ [prompt] }
        [.replied prompt.ask.peer (opResult (.error text) prompt.msgId)]
  | turn {place : Nat} {prompt : Prompt} {answer : AnswerSlot} {point : PromptPoint}
      {emitted : List DeskEvent} (hget : s.prompts[place]? = some prompt)
      (hended : point = .ended ↔ prompt.point = .ended)
      (hwaits : point = .waiting → prompt.point = .waiting)
      (hheard : answer = .given true →
        prompt.answer = .given true ∨ .responded prompt.ask.askId true ∈ emitted)
      (hdeleting : point = .deleting → prompt.point = .deleting ∨ prompt.answer = .given true)
      (hemitted : emitted = [] ∨ ∃ allow, emitted = [.responded prompt.ask.askId allow]) :
      Move s (s.setPrompt place { prompt with answer, point }) emitted
  | close {place : Nat} {prompt : Prompt} (effects : List DeskEvent) (tree : LinkedTree)
      (result : Except String Unit) (hget : s.prompts[place]? = some prompt)
      (hpoint : prompt.point ≠ .ended)
      (heffects : effects = [] ∨ prompt.point = .deleting ∧
        effects = [.performed (some prompt.ask.askId) prompt.ask.peer prompt.ask.shareId
          (.delete prompt.path)]) :
      Move s { s.setPrompt place { prompt with point := .ended } with tree }
        (effects ++ [.replied prompt.ask.peer (opResult result prompt.msgId)])

section Moves

variable {system : TreeSystem} {s next : ShareDesk} {peer : Fingerprint} {msg : ControlMsg}
  {input : DeskInput} {emitted : List DeskEvent}

theorem resp_op_result (result : Except String Unit) (msgId : Nat) :
    respMsgId (opResult result msgId) = msgId := by
  cases result <;> rfl

theorem not_telling_op_result (result : Except String Unit) (msgId : Nat) :
    ¬ Telling (.replied peer (opResult result msgId)) := by
  cases result <;> exact id

theorem denial_spec (peer : Fingerprint) {reply : ControlMsg} (h : denial msg = some reply) :
    respMsgId reply = requestId msg ∧ ¬ Telling (.replied peer reply) := by
  unfold denial at h
  split at h
  all_goals cases h
  · exact ⟨rfl, absurd rfl⟩
  · exact ⟨rfl, by simp [Telling]⟩
  all_goals exact ⟨rfl, id⟩

theorem operate_move {shareId : String} (op : ShareOp)
    (hrouter : s.router.request = some (peer, msg))
    (hserves : Serves peer msg (.performed none peer shareId op)) :
    Move s (s.operate system peer shareId op (requestId msg)).1
      (s.operate system peer shareId op (requestId msg)).2 :=
  .finish [_] _ hrouter (resp_op_result _ _) (.inr ⟨shareId, op, rfl, hserves⟩)
    fun htelling => absurd htelling (not_telling_op_result _ _)

theorem serve_move {readDir : Location → Option (List (Option DirEntry))}
    (hrouter : s.router = .serving peer msg)
    (h : s.serve system readDir peer msg = some (next, emitted)) : Move s next emitted := by
  have hrequest : s.router.request = some (peer, msg) := by
    rw [hrouter]
    rfl
  unfold serve at h
  split at h
  · cases h
    exact .finish [] s.tree hrequest rfl (.inl rfl) fun _ => ⟨rfl, rfl⟩
  · cases h
    exact .finish [] s.tree hrequest rfl (.inl rfl) fun _ => ⟨rfl, _, _, _, rfl⟩
  · cases h
    exact operate_move (.rename _ _) hrequest ⟨rfl, _, rfl⟩
  · cases h
    exact operate_move (.mkdir _) hrequest ⟨rfl, _, rfl⟩
  · split at h
    · cases h
      exact .finish [] s.tree hrequest rfl (.inl rfl) fun htelling => absurd htelling id
    · cases h
      exact .around s.shares s.tree s.nowMs hrequest.symm
  · cases h

theorem wake_move {place : Nat} {prompt : Prompt} (hget : s.prompts[place]? = some prompt)
    (h : s.wake place prompt = some (next, emitted)) : Move s next emitted := by
  have hrefused : prompt.point = .waiting →
      Move s (s.refuse place prompt).1 (s.refuse place prompt).2 := fun hpoint =>
    .close [] s.tree (.error _) hget (by rw [hpoint]; decide) (.inl rfl)
  unfold wake at h
  split at h
  · next hpoint =>
    split at h
    · next hanswer =>
      cases h
      exact .turn hget (by simp [hpoint]) nofun .inl (fun _ => .inr hanswer) (.inl rfl)
    · cases h
      exact hrefused hpoint
    · cases h
      exact hrefused hpoint
    · obtain ⟨-, rfl, rfl⟩ := when_answer h
      exact hrefused hpoint
  · cases h

theorem step_move (h : step system s input = some (next, emitted)) : Move s next emitted := by
  cases input with simp only [step] at h
  | trust store =>
    cases h
    exact .trust store
  | around shares tree ms =>
    cases h
    exact .around _ _ _ rfl
  | message peer msg =>
    split at h
    · next hidle =>
      obtain ⟨reply, hdenial, h⟩ := Option.map_eq_some_iff.mp h
      split at h
      · next hbrowse =>
        cases h
        exact .take (by rw [hidle]; rfl) hbrowse
      · cases h
        exact .decline (denial_spec peer hdenial).1 (denial_spec peer hdenial).2
    · cases h
  | serve readDir =>
    split at h
    · next hrouter => exact serve_move hrouter h
    · cases h
  | counted entryCount secs taken =>
    split at h
    · next peer shareId path msgId isDir hrouter =>
      have hrequest : s.router.request = some (peer, .shareDelete shareId path msgId) := by
        rw [hrouter]
        rfl
      unfold prompt at h
      split at h
      · cases h
        exact .finish [] s.tree hrequest rfl (.inl rfl) fun htelling => absurd htelling id
      next hfull =>
        dsimp only at h
        split at h
        · cases h
          exact .ask hrequest (Nat.lt_of_not_le hfull) rfl rfl rfl rfl
        · cases h
          exact .untaken _ hrequest rfl rfl rfl
    · cases h
  | respond place allow =>
    split at h
    · next prompt hget =>
      split at h
      · cases h
        refine .turn hget Iff.rfl id (fun hgiven => .inr ?_) .inl (.inr ⟨allow, rfl⟩)
        obtain rfl : allow = true := AnswerSlot.given.inj hgiven
        exact List.mem_cons_self
      · cases h
        exact .around _ _ _ rfl
    · cases h
      exact .around _ _ _ rfl
  | watchdog place =>
    split at h
    · next prompt hget =>
      obtain ⟨-, rfl, rfl⟩ := when_answer h
      exact .turn hget Iff.rfl id nofun .inl (.inl rfl)
    · cases h
  | wake place =>
    obtain ⟨prompt, hget, hwake⟩ := Option.bind_eq_some_iff.mp h
    exact wake_move hget hwake
  | delete place =>
    obtain ⟨prompt, hget, hdelete⟩ := Option.bind_eq_some_iff.mp h
    unfold delete at hdelete
    split at hdelete
    · next hpoint =>
      cases hdelete
      exact .close [_] _ _ hget (by rw [hpoint]; decide) (.inr ⟨hpoint, rfl⟩)
    · cases hdelete

end Moves

end ShareDesk

section Runs

variable {system : TreeSystem} {first : TrustStore} {trace emitted : List DeskEvent}
  {s next : ShareDesk} {peer : Fingerprint} {msg : ControlMsg} {event : DeskEvent} {prompt : Prompt}
  {shares : List ShareDef} {tree : LinkedTree} {inputs : List DeskInput}

theorem trust_after_append :
    trustAfter first (trace ++ emitted) = trustAfter (trustAfter first trace) emitted :=
  List.foldl_append

theorem Allowed.later (h : Allowed first trace peer msg) : Allowed first (trace ++ emitted) peer msg := by
  obtain ⟨start, rest, rfl, hbrowse⟩ := h
  exact ⟨start, rest ++ emitted, by simp, hbrowse⟩

/-- A prompt belongs to a request of a peer that could browse, waits only after the user was asked,
and deletes only after the user has allowed it. -/
structure Backed (first : TrustStore) (trace : List DeskEvent) (prompt : Prompt) : Prop where
  allowed : Allowed first trace prompt.request.1 prompt.request.2
  asked : prompt.point ≠ .ended →
    .prompted prompt.ask ∈ trace ∧ prompt.ask.name = lastSegment prompt.path
  heard : prompt.answer = .given true → .responded prompt.ask.askId true ∈ trace
  deleting : prompt.point = .deleting → .responded prompt.ask.askId true ∈ trace

theorem Backed.later (h : Backed first trace prompt) : Backed first (trace ++ emitted) prompt where
  allowed := h.allowed.later
  asked hpoint := (h.asked hpoint).imp_left (List.mem_append_left _)
  heard hanswer := List.mem_append_left _ (h.heard hanswer)
  deleting hpoint := List.mem_append_left _ (h.deleting hpoint)

/-- The prompt of an id has ended. -/
def ShareDesk.Ended (s : ShareDesk) (askId : Nat) : Prop :=
  ∃ place prompt, askId = place + 1 ∧ s.prompts[place]? = some prompt ∧ prompt.point = .ended

/-- What holds after every history. -/
structure DeskInv (first : TrustStore) (trace : List DeskEvent) (s : ShareDesk) : Prop where
  trust : s.trust = trustAfter first trace
  router : ∀ peer msg, s.router.request = some (peer, msg) → Allowed first trace peer msg
  prompts : ∀ place prompt, s.prompts[place]? = some prompt →
    prompt.ask.askId = place + 1 ∧ Backed first trace prompt
  asked : ∀ ask, .prompted ask ∈ trace → ask.askId ≤ s.prompts.length
  performed : ∀ askId peer shareId op, .performed (some askId) peer shareId op ∈ trace →
    s.Ended askId
  justified : EachEvent (Justified first) trace

namespace DeskInv

theorem start : DeskInv first [] (.start first shares tree) :=
  ⟨rfl, nofun, nofun, nofun, nofun, each_event_nil⟩

/-- Something happens that leaves the prompts. -/
theorem happen (h : DeskInv first trace s) (hasked : ∀ ask, event ≠ .prompted ask)
    (hperformed : ∀ askId peer shareId op, event = .performed (some askId) peer shareId op →
      s.Ended askId)
    (hjustified : Justified first trace event) :
    DeskInv first (trace ++ [event]) { s with trust := trustAfter s.trust [event] } where
  trust := by rw [trust_after_append, h.trust]
  router peer msg hrequest := (h.router peer msg hrequest).later
  prompts place prompt hget := (h.prompts place prompt hget).imp_right Backed.later
  asked ask hmem := (List.mem_append.mp hmem).elim (h.asked ask) fun hnew =>
    absurd (List.mem_singleton.mp hnew).symm (hasked ask)
  performed askId peer shareId op hmem := (List.mem_append.mp hmem).elim
    (h.performed askId peer shareId op) fun hnew =>
      hperformed askId peer shareId op (List.mem_singleton.mp hnew).symm
  justified := each_event_append.mpr ⟨h.justified,
    each_event_singleton.mpr (by rw [List.append_nil]; exact hjustified)⟩

/-- Something happens that tells nothing. -/
theorem quiet (h : DeskInv first trace s) (htells : ¬ Telling event) :
    DeskInv first (trace ++ [event]) { s with trust := trustAfter s.trust [event] } :=
  h.happen (fun _ heq => htells (heq ▸ trivial))
    (fun _ _ _ _ heq => (htells (heq ▸ trivial)).elim)
    ⟨fun htelling => (htells htelling).elim, fun _ _ _ _ heq => (htells (heq ▸ trivial)).elim,
      fun _ _ heq => (htells (heq ▸ trivial)).elim⟩

/-- The desk changes, and nothing happens. -/
theorem silent (h : DeskInv first trace s) (htrust : next.trust = s.trust)
    (hrouter : ∀ peer msg, next.router.request = some (peer, msg) → Allowed first trace peer msg)
    (hprompts : ∀ place prompt, next.prompts[place]? = some prompt →
      prompt.ask.askId = place + 1 ∧ Backed first trace prompt)
    (hlength : s.prompts.length ≤ next.prompts.length)
    (hended : ∀ askId, s.Ended askId → next.Ended askId) : DeskInv first trace next where
  trust := htrust.trans h.trust
  router := hrouter
  prompts := hprompts
  asked ask hmem := (h.asked ask hmem).trans hlength
  performed askId peer shareId op hmem := hended askId (h.performed askId peer shareId op hmem)
  justified := h.justified

theorem set (h : DeskInv first trace s) {place : Nat} {answer : AnswerSlot} {point : PromptPoint}
    (hget : s.prompts[place]? = some prompt) (hended : prompt.point = .ended → point = .ended)
    (hbacked : Backed first trace { prompt with answer, point }) :
    DeskInv first trace { s.setPrompt place { prompt with answer, point } with tree } := by
  refine h.silent rfl h.router
    (forall_set hget ⟨(h.prompts place prompt hget).1, hbacked⟩ h.prompts) List.length_set.ge ?_
  rintro askId ⟨j, found, hid, hfound, hpoint⟩
  rcases set_cases hget hfound with ⟨rfl, rfl, hset⟩ | ⟨-, hset⟩
  · exact ⟨j, _, hid, hset _, hended hpoint⟩
  · exact ⟨j, found, hid, hset _, hpoint⟩

theorem move (h : DeskInv first trace s) (hmove : s.Move next emitted) :
    DeskInv first (trace ++ emitted) next := by
  have hkept : ∀ {askId prompt}, s.Ended askId →
      ShareDesk.Ended { s with router := .idle, prompts := s.prompts ++ [prompt] } askId := by
    rintro askId prompt ⟨place, found, heq, hget, hended⟩
    exact ⟨place, found, heq, get_append_of hget, hended⟩
  cases hmove with
  | trust store => exact h.quiet id
  | around shares tree nowMs hrouter =>
    rw [List.append_nil]
    exact h.silent rfl (fun peer msg hrequest => h.router peer msg (hrouter ▸ hrequest)) h.prompts
      (Nat.le_refl _) fun _ => id
  | decline hid htells =>
    rw [List.append_cons]
    exact (h.quiet id).quiet htells
  | @take peer msg hidle hbrowse =>
    refine (h.quiet id).silent rfl ?_ (h.quiet id).prompts (Nat.le_refl _) fun _ => id
    rintro _ _ ⟨⟩
    exact ⟨trace, [], rfl, h.trust ▸ hbrowse⟩
  | @finish peer msg reply effects tree hrouter hid heffects hserves =>
    have heach : DeskInv first (trace ++ effects) s := by
      rcases heffects with rfl | ⟨shareId, op, rfl, hserved⟩
      · rw [List.append_nil]
        exact h
      · exact h.happen nofun nofun ⟨fun _ => ⟨peer, msg, h.router peer msg hrouter, hserved⟩,
          nofun, nofun⟩
    rw [← List.append_assoc]
    have hreplied : DeskInv first (trace ++ effects ++ [.replied peer reply]) s :=
      heach.happen nofun nofun ⟨fun htelling =>
        ⟨peer, msg, heach.router peer msg hrouter, hserves htelling⟩, nofun, nofun⟩
    exact hreplied.silent rfl nofun hreplied.prompts (Nat.le_refl _) fun _ => id
  | @ask prompt hrouter hroom hid hname hanswer hpoint =>
    have hallowed := h.router _ _ hrouter
    refine ⟨by rw [trust_after_append, ← h.trust]; rfl, nofun, ?_, ?_, ?_,
      each_event_append.mpr ⟨h.justified, ?_⟩⟩
    · refine forall_append ⟨hid, ⟨hallowed.later, fun _ => ⟨by simp, hname⟩, ?_, ?_⟩⟩
        fun place found hget => (h.prompts place found hget).imp_right Backed.later
      · simp [hanswer]
      · simp [hpoint]
    · intro ask hmem
      rw [List.length_append]
      rcases List.mem_append.mp hmem with hold | hnew
      · exact (h.asked ask hold).trans (Nat.le_add_right _ _)
      · obtain rfl := DeskEvent.prompted.inj (List.mem_singleton.mp hnew)
        exact hid.le
    · exact fun askId peer shareId op hmem =>
        hkept (h.performed askId peer shareId op (by simpa using hmem))
    · refine each_event_singleton.mpr ⟨fun _ => ?_, nofun, fun ask other heq hmem => ?_⟩
      · rw [List.append_nil]
        exact ⟨_, _, hallowed, rfl, prompt.path, prompt.msgId, rfl, hname⟩
      · obtain rfl := DeskEvent.prompted.inj heq
        rw [List.append_nil] at hmem
        exact hid ▸ Nat.lt_succ_of_le (h.asked other hmem)
  | @untaken prompt text hrouter hid hanswer hpoint =>
    have hreplied : DeskInv first
        (trace ++ [.replied prompt.ask.peer (opResult (.error text) prompt.msgId)]) s :=
      h.quiet (ShareDesk.not_telling_op_result _ _)
    refine hreplied.silent rfl nofun (forall_append ⟨hid, ?_⟩ hreplied.prompts) (by simp)
      fun _ => hkept
    exact ⟨hreplied.router _ _ hrouter, by simp [hpoint], by simp [hanswer], by simp [hpoint]⟩
  | @turn place prompt answer point emitted hget hended hwaits hheard hdeleting hemitted =>
    have hemits : DeskInv first (trace ++ emitted) s := by
      rcases hemitted with rfl | ⟨allow, rfl⟩
      · rw [List.append_nil]
        exact h
      · exact h.quiet id
    have hbacked := (hemits.prompts place prompt hget).2
    refine hemits.set hget hended.mpr ⟨hbacked.allowed, fun hopen => hbacked.asked ?_, ?_, ?_⟩
    · exact fun hbefore => hopen (hended.mpr hbefore)
    · exact fun hgiven => (hheard hgiven).elim hbacked.heard (List.mem_append_right _)
    · exact fun hnow => (hdeleting hnow).elim hbacked.deleting hbacked.heard
  | @close place prompt effects tree result hget hpoint heffects =>
    obtain ⟨hid, hbacked⟩ := h.prompts place prompt hget
    have hclosed : DeskInv first trace
        { s.setPrompt place { prompt with point := .ended } with tree } :=
      h.set hget (fun _ => rfl) ⟨hbacked.allowed, by simp, hbacked.heard, nofun⟩
    rw [← List.append_assoc]
    have heach : DeskInv first (trace ++ effects)
        { s.setPrompt place { prompt with point := .ended } with tree } := by
      rcases heffects with rfl | ⟨hdeleting, rfl⟩
      · rw [List.append_nil]
        exact hclosed
      obtain ⟨hprompted, hname⟩ := hbacked.asked hpoint
      refine hclosed.happen nofun ?_ ⟨fun _ => ⟨_, _, hbacked.allowed, rfl, _, rfl⟩, ?_, nofun⟩
      · rintro _ _ _ _ ⟨⟩
        exact ⟨place, _, hid, (get_set hget).trans (if_pos rfl), rfl⟩
      · rintro _ _ _ _ ⟨⟩
        refine ⟨hbacked.deleting hdeleting, ⟨_, _, hprompted, rfl, rfl, rfl, rfl, hname⟩, ?_⟩
        intro peer' shareId' op' hmem
        obtain ⟨place', found, heq, hget', hbefore⟩ := h.performed _ _ _ _ hmem
        obtain rfl : place' = place := Nat.succ.inj (heq.symm.trans hid)
        obtain rfl := Option.some.inj (hget.symm.trans hget')
        rw [hdeleting] at hbefore
        cases hbefore
    exact heach.quiet (ShareDesk.not_telling_op_result result prompt.msgId)

end DeskInv

/-- Whatever is told, asked or done for a peer answers a request of a peer that could browse when
the router looked, in every history; a deletion was asked about under its path, allowed for that
prompt, and happens once. -/
theorem effects_allowed
    (h : Exec (ShareDesk.step system) Guard.free (.start first shares tree) inputs trace s) :
    EachEvent (Justified first) trace :=
  (h.invariant DeskInv.start fun _ _ _ _ _ hinv _ hstep =>
    hinv.move (ShareDesk.step_move hstep)).justified

/-- One if the peer and the id are those that are counted. -/
def hit (peer : Fingerprint) (msgId : Nat) (found : Fingerprint) (id : Nat) : Nat :=
  if found = peer ∧ id = msgId then 1 else 0

/-- The requests of the peer with the id among the events. -/
def DeskEvent.asks (peer : Fingerprint) (msgId : Nat) : DeskEvent → Nat
  | .received found msg => hit peer msgId found (requestId msg)
  | _ => 0

/-- The replies to the peer with the id among the events. -/
def DeskEvent.answers (peer : Fingerprint) (msgId : Nat) : DeskEvent → Nat
  | .replied found msg => hit peer msgId found (respMsgId msg)
  | _ => 0

/-- The open requests of the peer with the id behind a prompt. -/
def Prompt.opened (peer : Fingerprint) (msgId : Nat) (prompt : Prompt) : Nat :=
  if prompt.point = .ended then 0 else hit peer msgId prompt.ask.peer prompt.msgId

/-- The open requests of the peer with the id, with the router or with a prompt. -/
def ShareDesk.opened (s : ShareDesk) (peer : Fingerprint) (msgId : Nat) : Nat :=
  (s.router.request.elim 0 fun request => hit peer msgId request.1 (requestId request.2)) +
    (s.prompts.map (·.opened peer msgId)).sum

/-- One move: what is asked is answered, or stays open. -/
theorem ShareDesk.Move.balanced (hmove : s.Move next emitted) (peer : Fingerprint) (msgId : Nat) :
    (emitted.map (·.asks peer msgId)).sum + s.opened peer msgId =
      (emitted.map (·.answers peer msgId)).sum + next.opened peer msgId := by
  cases hmove with
  | trust store => rfl
  | around shares tree nowMs hrouter =>
    unfold ShareDesk.opened
    rw [hrouter]
    rfl
  | decline hid htells => simp [DeskEvent.asks, DeskEvent.answers, hid]
  | take hidle hbrowse =>
    unfold ShareDesk.opened
    rw [hidle]
    simp [DeskPoint.request, DeskEvent.asks, DeskEvent.answers]
  | finish effects tree hrouter hid heffects hserves =>
    unfold ShareDesk.opened
    rw [hrouter]
    rcases heffects with rfl | ⟨shareId, op, rfl, -⟩
    all_goals simp [DeskPoint.request, DeskEvent.asks, DeskEvent.answers, hid]
  | ask hrouter hroom hid hname hanswer hpoint =>
    unfold ShareDesk.opened
    rw [hrouter]
    simp [DeskPoint.request, DeskEvent.asks, DeskEvent.answers, Prompt.opened, hpoint,
      Prompt.request, requestId, Nat.add_comm]
  | untaken text hrouter hid hanswer hpoint =>
    unfold ShareDesk.opened
    rw [hrouter]
    simp [DeskPoint.request, DeskEvent.asks, DeskEvent.answers, Prompt.opened, hpoint,
      Prompt.request, requestId, ShareDesk.resp_op_result]
  | @turn place prompt answer point emitted hget hended hwaits hheard hdeleting hemitted =>
    have hsum := sum_map_set (·.opened peer msgId) hget { prompt with answer, point }
    simp only [Prompt.opened, hended, Nat.add_right_cancel_iff] at hsum
    have hopened : (s.setPrompt place { prompt with answer, point }).opened peer msgId =
        s.opened peer msgId := congrArg (_ + ·) hsum
    rw [hopened]
    rcases hemitted with rfl | ⟨allow, rfl⟩
    · rfl
    · rfl
  | @close place prompt effects tree result hget hpoint heffects =>
    have hsum := sum_map_set (·.opened peer msgId) hget { prompt with point := .ended }
    have hopened : s.opened peer msgId = hit peer msgId prompt.ask.peer prompt.msgId +
        ShareDesk.opened { s.setPrompt place { prompt with point := .ended } with tree } peer msgId := by
      have hbefore : prompt.opened peer msgId = hit peer msgId prompt.ask.peer prompt.msgId :=
        if_neg hpoint
      show _ + _ = _ + (_ + ((s.prompts.set place _).map _).sum)
      rw [Nat.add_left_comm, ← hbefore, Nat.add_comm (prompt.opened peer msgId), hsum]
      rfl
    rw [hopened]
    rcases heffects with rfl | ⟨-, rfl⟩
    all_goals simp [DeskEvent.asks, DeskEvent.answers, ShareDesk.resp_op_result]

/-- Every request is answered once: a peer has sent as many requests with an id as it was sent
replies with that id, and as are open, with the router or with a prompt. -/
theorem requests_answered
    (h : Exec (ShareDesk.step system) Guard.free (.start first shares tree) inputs trace s)
    (peer : Fingerprint) (msgId : Nat) :
    (trace.map (·.asks peer msgId)).sum =
      (trace.map (·.answers peer msgId)).sum + s.opened peer msgId := by
  induction h with
  | start => rfl
  | step _ _ hstep ih =>
    have hmove := (ShareDesk.step_move hstep).balanced peer msgId
    simp only [List.map_append, List.sum_append]
    omega

end Runs

/-- A peer that may browse asks for a deletion, which the user allows; another one is refused. -/
def confirmedDeletion : List DeskInput :=
  [.message 7 (.shareDelete "s1" "a" 3), .serve fun _ => none, .counted 0 30 true,
    .message 8 (.shareMkdir "s1" "b" 3), .respond 0 true, .wake 0, .delete 0]

/-- The trust store in which only one peer may browse. -/
def browsing : TrustStore :=
  ⟨[{ fingerprint := 7, name := "laptop", aliasName := "", pairedAt := 0,
      perms := { browse := true, download := false, push := .deny } }]⟩

def deletionHistory : List DeskEvent :=
  Machine.history (ShareDesk.step permissive) Guard.free
    (.start browsing [sharedDir] sharedTree.start) confirmedDeletion

theorem deletion_exec : ∃ last, Exec (ShareDesk.step permissive) Guard.free
    (.start browsing [sharedDir] sharedTree.start) confirmedDeletion deletionHistory last :=
  exec_of_run _ _ _ _ (by decide +kernel)

theorem deletion_allowed :
    (deletionHistory.any fun event => event matches .performed (some 1) 7 "s1" (.delete "a")) = true ∧
      EachEvent (Justified browsing) deletionHistory := by
  obtain ⟨last, hexec⟩ := deletion_exec
  exact ⟨by decide +kernel, effects_allowed hexec⟩

theorem deletion_answered :
    ∃ last : ShareDesk, (deletionHistory.map (·.asks 7 3)).sum =
      (deletionHistory.map (·.answers 7 3)).sum + last.opened 7 3 := by
  obtain ⟨last, hexec⟩ := deletion_exec
  exact ⟨last, requests_answered hexec 7 3⟩

end Share

end LocalTrans
