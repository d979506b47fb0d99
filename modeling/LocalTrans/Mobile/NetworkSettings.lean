import LocalTrans.Foundation.Execution
import LocalTrans.Foundation.Places
import LocalTrans.Relay.Messages

/-!
# The network settings of the mobile app

`set_hidden` and `save_settings` write the configuration and, where they see that it matters, restart
the relay client with `spawn_relay`, which also runs once in `start`. A restart shuts down the client
in the slot, aborts the task that may still be connecting one, and spawns a new task, which connects
until the relay has registered the client and puts it into the slot. `NetDesk` is the app as far as
this goes; the calls come from any thread, and a step of a call goes from one lock to the next. A
task that was aborted goes on until it has to wait. `network_run` is the result for the runs in which
no call leaves a client or the flag of the discovery behind.
-/

namespace LocalTrans.Ffi

open Foundation Relay

/-- `Config`, as far as the network settings go. -/
structure NetConfig where
  deviceName : String
  hidden : Bool
  relayEnabled : Bool
  relayServer : String
  relayPsk : String
deriving DecidableEq

/-- `SettingsDto`, likewise. -/
structure SettingsDto where
  deviceName : String
  hidden : Bool
  relayEnabled : Bool
  relayAddr : String
  relayPsk : String
deriving DecidableEq

/-- `RelayClientConfig`: what a client registers with. -/
structure RelayClientConfig where
  serverAddr : SocketAddr
  psk : String
  deviceName : String
  hidden : Bool
deriving DecidableEq

/-- `char::is_whitespace`. -/
def isWhitespace (c : Char) : Bool :=
  (0x9 ≤ c.val && c.val ≤ 0xd) || c.val = 0x20 || c.val = 0x85 || c.val = 0xa0 ||
    c.val = 0x1680 || (0x2000 ≤ c.val && c.val ≤ 0x200a) || c.val = 0x2028 || c.val = 0x2029 ||
    c.val = 0x202f || c.val = 0x205f || c.val = 0x3000

section Config

variable (parse : String → Option SocketAddr)

/-- `validate_relay_config`, for a parser of socket addresses. -/
def validateRelayConfig (enabled : Bool) (server psk : String) : Except String Unit :=
  let chars := server.toList
  if enabled = false then .ok ()
  else if chars.all isWhitespace ∨ psk = "" then .error "启用中继需要填写服务器地址和密钥"
  else if (parse server).isNone then
    if (chars.zip chars.tail).any fun pair => pair = (':', ':') then
      .error ("地址格式无效: 疑似多了一个冒号,应为 IP:端口(如 203.0.113.10:9443),实际「" ++ server ++ "」")
    else if ':' ∉ chars then
      .error ("地址格式无效: 缺少端口,应为 IP:端口(如 203.0.113.10:9443),实际「" ++ server ++ "」")
    else .error ("地址格式无效: 应为 IP:端口(如 203.0.113.10:9443),实际「" ++ server ++ "」")
  else if psk.utf8ByteSize < 16 then
    .error ("密钥过短: 至少 16 字符(与服务端要求一致),当前 " ++ toString psk.utf8ByteSize ++ " 字符")
  else .ok ()

/-- The client that `spawn_relay` reads from the configuration: none if the relay is not enabled or
its parameters are not valid. -/
def NetConfig.client? (config : NetConfig) : Option RelayClientConfig :=
  if config.relayEnabled = false then none
  else match validateRelayConfig parse true config.relayServer config.relayPsk with
    | .error _ => none
    | .ok () => (parse config.relayServer).map fun serverAddr =>
      { serverAddr, psk := config.relayPsk, deviceName := config.deviceName
        hidden := config.hidden }

end Config

/-- `save_settings` on the configuration. -/
def NetConfig.save (_ : NetConfig) (settings : SettingsDto) : NetConfig where
  deviceName := settings.deviceName
  hidden := settings.hidden
  relayEnabled := settings.relayEnabled
  relayServer := settings.relayAddr
  relayPsk := settings.relayPsk

/-- `relay_changed`: `save_settings` restarts the relay client. -/
def NetConfig.relayChanged (config : NetConfig) (settings : SettingsDto) : Bool :=
  (config.relayEnabled, config.relayServer, config.relayPsk) ≠
      (settings.relayEnabled, settings.relayAddr, settings.relayPsk) ||
    config.deviceName ≠ settings.deviceName

/-- What a call does next: `set_hidden` reads the flag of the discovery, writes it, and writes the
configuration; `save_settings` writes the configuration; and `spawn_relay` reads it, clears the slot,
aborts the task that connects and spawns another, and keeps its handle. -/
inductive NetCall where
  | loading (hidden : Bool)
  | storing (hidden wasHidden : Bool)
  | writing (hidden wasHidden : Bool)
  | saving (settings : SettingsDto)
  | reading
  | clearing (client : RelayClientConfig)
  | aborting (client : RelayClientConfig)
  | keeping (connect : Nat)
  | ended
deriving DecidableEq

/-- Where a task that connects is: in `RelayClient::connect`, in front of the slot, or done. -/
inductive ConnectPoint where
  | dialing
  | publishing
  | ended
deriving DecidableEq

/-- A task that connects, and its client: whether the client has been registered and not been shut
down. -/
structure ConnectTask where
  client : RelayClientConfig
  point : ConnectPoint
  aborted : Bool
  live : Bool
deriving DecidableEq

/-- The configuration, the flag that the discovery reads, the slot of the client, the handle of the
task that connects, the calls and the tasks. A client is named by its task, a task by its place. The
first call is that of `start`. -/
structure NetDesk where
  config : NetConfig
  hidden : Bool
  relay : Option Nat
  relayConnectTask : Option Nat
  calls : List NetCall
  connects : List ConnectTask

/-- A call comes or gets its lock, and a task is registered or gets the lock of the slot, or has to
wait for it. -/
inductive NetInput where
  | start
  | setHidden (hidden : Bool)
  | saveSettings (settings : SettingsDto)
  | advance (call : Nat)
  | connect (task : Nat)
  | wait (task : Nat)
deriving DecidableEq

/-- The task has a live client, or can still come up with one. -/
def ConnectTask.coming (task : ConnectTask) : Bool :=
  task.live || (task.point = .dialing && !task.aborted)

namespace NetDesk

/-- The app before `start`, with the configuration on disk. -/
def off (config : NetConfig) : NetDesk where
  config := config
  hidden := false
  relay := none
  relayConnectTask := none
  calls := []
  connects := []

/-- `start` has returned: the other calls find the state of the app. -/
def Started (s : NetDesk) : Prop := s.calls.head? = some .ended
deriving Decidable

/-- A call goes on. -/
def goTo (s : NetDesk) (i : Nat) (call : NetCall) : NetDesk :=
  { s with calls := s.calls.set i call }

/-- `RelayClient::shutdown` on the client in the slot, which is empty afterwards. -/
def clear (s : NetDesk) : NetDesk :=
  match s.relay with
  | none => s
  | some k => { s with
      relay := none
      connects := s.connects.modify k fun task => { task with live := false } }

/-- The task that connects is aborted. -/
def abort (s : NetDesk) : NetDesk :=
  match s.relayConnectTask with
  | none => s
  | some k => { s with
      relayConnectTask := none
      connects := s.connects.modify k fun task => { task with aborted := true } }

/-- A new task connects a client. -/
def spawn (s : NetDesk) (client : RelayClientConfig) : NetDesk :=
  { s with connects := s.connects ++
      [{ client := client, point := .dialing, aborted := false, live := false }] }

variable (parse : String → Option SocketAddr)

/-- One call, from the lock it waits for to the next. -/
def advance (s : NetDesk) (i : Nat) : NetCall → Option NetDesk
  | .loading hidden => some (s.goTo i (.storing hidden s.hidden))
  | .storing hidden was => some ({ s with hidden := hidden }.goTo i (.writing hidden was))
  | .writing hidden was =>
    let next := { s with config := { s.config with hidden := hidden } }
    if s.config.relayEnabled = true ∧ was ≠ hidden then some (next.goTo i .reading)
    else some (next.goTo i .ended)
  | .saving settings =>
    let next := { s with config := s.config.save settings }
    if s.config.relayChanged settings = true then some (next.goTo i .reading)
    else some (next.goTo i .ended)
  | .reading =>
    match s.config.client? parse with
    | none => some (s.goTo i .ended)
    | some client => some (s.goTo i (.clearing client))
  | .clearing client => some (s.clear.goTo i (.aborting client))
  | .aborting client => some ((s.abort.spawn client).goTo i (.keeping s.connects.length))
  | .keeping k => some ({ s with relayConnectTask := some k }.goTo i .ended)
  | .ended => none

/-- One task, from its registration to the slot. -/
def connected (s : NetDesk) (i : Nat) (task : ConnectTask) : Option NetDesk :=
  match task.point with
  | .dialing =>
    if task.aborted then none
    else some { s with
      connects := s.connects.set i { task with point := .publishing, live := true } }
  | .publishing =>
    some { s with
      relay := some i, connects := s.connects.set i { task with point := .ended } }
  | .ended => none

/-- One step. A call before `start` has returned does nothing, and so does a second `start`. -/
def step : Machine NetDesk NetInput Empty
  | s, .start =>
    if s.calls = [] then some ({ s with hidden := s.config.hidden, calls := [.reading] }, [])
    else some (s, [])
  | s, .setHidden hidden =>
    if s.Started then some ({ s with calls := s.calls ++ [.loading hidden] }, [])
    else some (s, [])
  | s, .saveSettings settings =>
    if s.Started then some ({ s with calls := s.calls ++ [.saving settings] }, [])
    else some (s, [])
  | s, .advance i => (s.calls[i]?.bind (s.advance parse i)).map (·, [])
  | s, .connect i => (s.connects[i]?.bind (s.connected i)).map (·, [])
  | s, .wait i =>
    match s.connects[i]? with
    | none => none
    | some task =>
      if task.aborted = true ∧ task.point ≠ .ended then
        some ({ s with connects := s.connects.set i { task with point := .ended } }, [])
      else some (s, [])

/-- The clients that are registered. -/
def liveClients (s : NetDesk) : List RelayClientConfig :=
  (s.connects.filter ConnectTask.live).map ConnectTask.client

/-- No call is under way, and no task connects. -/
def Idle (s : NetDesk) : Prop :=
  (∀ call ∈ s.calls, call = .ended) ∧ ∀ task ∈ s.connects, task.point = .ended

/-- The call restarts the client, with the configuration that it finds or has read. -/
def Renews (config : NetConfig) : NetCall → Prop
  | .storing hidden was | .writing hidden was => config.relayEnabled = true ∧ was ≠ hidden
  | .reading => True
  | .clearing client | .aborting client => config.client? parse = some client
  | _ => False

/-- The call sets the configured flag to that of the discovery, as it is or as the call sets it. -/
def Hides (hidden : Bool) : NetCall → Prop
  | .loading _ | .storing _ _ => True
  | .writing value _ => value = hidden
  | _ => False

/-- A call other than the given one. -/
def Other (s : NetDesk) (i : Nat) (holds : NetCall → Prop) : Prop :=
  ∃ (j : Nat) (call : NetCall), s.calls[j]? = some call ∧ j ≠ i ∧ holds call

/-- A call may write the configuration: the flag of the discovery is the configured one then, or
another call makes it so. -/
def Agrees (s : NetDesk) (i : Nat) (config : NetConfig) : Prop :=
  s.hidden = config.hidden ∨ s.Other i (Hides s.hidden)

/-- A call may write the configuration without a restart: it asks for the same client as before, or
another call restarts the client. -/
def Heeds (s : NetDesk) (i : Nat) (config : NetConfig) : Prop :=
  config.client? parse = s.config.client? parse ∨ s.Other i (Renews parse config)

/-- A restart may go on with a client: the configuration asks for it, or another call restarts the
client. -/
def Current (s : NetDesk) (i : Nat) (client : RelayClientConfig) : Prop :=
  s.config.client? parse = some client ∨ s.Other i (Renews parse s.config)

/-- No client is live, and none can come but from the task whose handle is kept. -/
def Cleared (s : NetDesk) : Prop :=
  ∀ (k : Nat) (task : ConnectTask), s.connects[k]? = some task → task.live = false ∧
    (task.point = .dialing → task.aborted = true ∨ s.relayConnectTask = some k)

/-- What a run keeps to. The flag of the discovery and the configured one are set together, and the
client is restarted when the configuration asks for another. A restart that finds no client asked for
leaves none behind, and one that goes on does so with the client asked for, and spawns its task when
no other client is live or can come. -/
def Careful : Guard NetDesk NetInput Empty
  | _, s, .advance i =>
    match s.calls[i]? with
    | some (.writing hidden was) =>
      s.Agrees i { s.config with hidden := hidden } ∧
        ((s.config.relayEnabled = true ∧ was ≠ hidden) ∨
          s.Heeds parse i { s.config with hidden := hidden })
    | some (.saving settings) =>
      s.Agrees i (s.config.save settings) ∧
        (s.config.relayChanged settings = true ∨ s.Heeds parse i (s.config.save settings))
    | some .reading =>
      s.config.client? parse = none → ∀ task ∈ s.connects, task.coming = false
    | some (.clearing client) => s.Current parse i client
    | some (.aborting client) => s.Current parse i client ∧ s.Cleared
    | _ => True
  | _, _, _ => True

/-- The settings have taken effect: there is one live client at most, and once all calls and tasks
have ended it is the one that the configuration asks for, if it asks for one, and the flag of the
discovery is the configured one. -/
structure InEffect (s : NetDesk) : Prop where
  once : s.liveClients.length ≤ 1
  settled : s.Started → s.Idle →
    s.liveClients = (s.config.client? parse).toList ∧ s.hidden = s.config.hidden

variable {parse} {s next : NetDesk} {i : Nat} {call : NetCall} {task : ConnectTask}
  {client : RelayClientConfig}

/-- The clients that are live or can still come. -/
def candidates (s : NetDesk) : List RelayClientConfig :=
  (s.connects.filter ConnectTask.coming).map ConnectTask.client

/-- What the app keeps: one client at most is live or can come; once the app has been started, the
flag of the discovery is the configured one or a call makes it so, and the client asked for is the
one that is live or can come, or a call restarts it. -/
structure NetInv (parse : String → Option SocketAddr) (s : NetDesk) : Prop where
  single : s.connects.countP ConnectTask.coming ≤ 1
  hides : s.calls ≠ [] → s.hidden = s.config.hidden ∨ ∃ call ∈ s.calls, Hides s.hidden call
  tracked : s.calls ≠ [] → (∃ call ∈ s.calls, Renews parse s.config call) ∨
    s.candidates = (s.config.client? parse).toList

/-- There are as many candidates as tasks that can bring one up. -/
theorem length_candidates (s : NetDesk) :
    s.candidates.length = s.connects.countP ConnectTask.coming := by
  rw [candidates, List.length_map, List.countP_eq_length_filter]

/-- Another call is there still after a call went on. -/
theorem Other.mem_set {holds : NetCall → Prop} (h : s.Other i holds) (point : NetCall) :
    ∃ call ∈ s.calls.set i point, holds call := by
  obtain ⟨j, call, hcall, hne, hholds⟩ := h
  refine ⟨call, List.mem_of_getElem? (i := j) ?_, hholds⟩
  rw [List.getElem?_set_ne (Ne.symm hne)]
  exact hcall

/-- A call is another one, or the one at the place. -/
theorem other_of_mem {holds : NetCall → Prop} {found : NetCall} (hcall : s.calls[i]? = some call)
    (hmem : found ∈ s.calls) (hholds : holds found) : holds call ∨ s.Other i holds := by
  obtain ⟨j, hfound⟩ := List.mem_iff_getElem?.mp hmem
  by_cases hj : j = i
  · subst hj
    obtain rfl := Option.some.inj (hcall.symm.trans hfound)
    exact .inl hholds
  · exact .inr ⟨j, found, hfound, hj, hholds⟩

/-- A call that went on is among the calls. -/
theorem mem_set (hcall : s.calls[i]? = some call) (point : NetCall) :
    point ∈ s.calls.set i point := by
  obtain ⟨hlt, -⟩ := List.getElem?_eq_some_iff.mp hcall
  exact List.mem_set hlt point

namespace NetInv

/-- A call goes on, and the client asked for is the one that can come, or a call restarts it. -/
theorem tracked_set (h : NetInv parse s) (hcall : s.calls[i]? = some call) {point : NetCall}
    (htracked : Renews parse s.config call → Renews parse s.config point ∨
      s.Other i (Renews parse s.config) ∨ s.candidates = (s.config.client? parse).toList) :
    (∃ found ∈ s.calls.set i point, Renews parse s.config found) ∨
      s.candidates = (s.config.client? parse).toList := by
  rcases h.tracked (List.ne_nil_of_mem (List.mem_of_getElem? hcall)) with ⟨found, hmem, hyes⟩ | hsame
  · rcases other_of_mem hcall hmem hyes with hown | hother
    · rcases htracked hown with hpoint | hother | hsame
      · exact .inl ⟨point, mem_set hcall point, hpoint⟩
      · exact .inl (hother.mem_set point)
      · exact .inr hsame
    · exact .inl (hother.mem_set point)
  · exact .inr hsame

/-- A call goes on, and nothing else changes. -/
theorem go_to (h : NetInv parse s) (hcall : s.calls[i]? = some call) {point : NetCall}
    (hhides : Hides s.hidden call → Hides s.hidden point ∨ s.Other i (Hides s.hidden))
    (htracked : Renews parse s.config call → Renews parse s.config point ∨
      s.Other i (Renews parse s.config) ∨ s.candidates = (s.config.client? parse).toList) :
    NetInv parse (s.goTo i point) where
  single := h.single
  hides _ := by
    rcases h.hides (List.ne_nil_of_mem (List.mem_of_getElem? hcall)) with hsame | ⟨found, hmem, hyes⟩
    · exact .inl hsame
    · rcases other_of_mem hcall hmem hyes with hown | hother
      · rcases hhides hown with hpoint | hother
        · exact .inr ⟨point, mem_set hcall point, hpoint⟩
        · exact .inr (hother.mem_set point)
      · exact .inr (hother.mem_set point)
  tracked _ := h.tracked_set hcall htracked

/-- A call writes the configuration. -/
theorem write (h : NetInv parse s) (hcall : s.calls[i]? = some call) {config : NetConfig}
    (hagrees : s.Agrees i config) (henabled : config.relayEnabled = s.config.relayEnabled)
    (hno : ¬ Renews parse s.config call) (hheeds : s.Heeds parse i config) :
    NetInv parse ({ s with config := config }.goTo i .ended) where
  single := h.single
  hides _ := by
    rcases hagrees with hsame | hother
    · exact .inl hsame
    · exact .inr (hother.mem_set .ended)
  tracked _ := by
    rcases hheeds with hclient | hother
    · have hrenews : ∀ found, Renews parse s.config found → Renews parse config found := by
        intro found hyes
        cases found with
        | storing hidden was | writing hidden was => exact ⟨henabled.trans hyes.1, hyes.2⟩
        | clearing client | aborting client => exact hclient.trans hyes
        | reading => trivial
        | _ => exact hyes
      rcases h.tracked (List.ne_nil_of_mem (List.mem_of_getElem? hcall)) with
        ⟨found, hmem, hyes⟩ | hsame
      · obtain ⟨j, other, hother, hne, hyes⟩ :=
          (other_of_mem hcall hmem hyes).resolve_left hno
        exact .inl (Other.mem_set ⟨j, other, hother, hne, hrenews other hyes⟩ .ended)
      · exact .inr (hsame.trans (congrArg Option.toList hclient.symm))
    · exact .inl (hother.mem_set .ended)

/-- A call writes the configuration and goes on to restart the client. -/
theorem write_restart (h : NetInv parse s) (hcall : s.calls[i]? = some call) {config : NetConfig}
    (hagrees : s.Agrees i config) : NetInv parse ({ s with config := config }.goTo i .reading) where
  single := h.single
  hides _ := by
    rcases hagrees with hsame | hother
    · exact .inl hsame
    · exact .inr (hother.mem_set .reading)
  tracked _ := .inl ⟨.reading, mem_set hcall .reading, trivial⟩

/-- A restart shuts down the client in the slot. -/
theorem clear (h : NetInv parse s) (hcall : s.calls[i]? = some (.clearing client))
    (hcurrent : s.Current parse i client) :
    NetInv parse (s.clear.goTo i (.aborting client)) := by
  have hkept : s.clear.calls = s.calls ∧ s.clear.config = s.config ∧ s.clear.hidden = s.hidden := by
    unfold NetDesk.clear
    split
    · exact ⟨rfl, rfl, rfl⟩
    · exact ⟨rfl, rfl, rfl⟩
  obtain ⟨hcalls, hconfig, hhidden⟩ := hkept
  refine ⟨?_, fun _ => ?_, fun _ => .inl ?_⟩
  · refine Nat.le_trans ?_ h.single
    show s.clear.connects.countP ConnectTask.coming ≤ _
    unfold NetDesk.clear
    split
    · exact Nat.le_refl _
    · next k _ =>
      refine countP_modify_le k fun task hcoming => ?_
      simp only [ConnectTask.coming, Bool.false_or] at hcoming
      simp only [ConnectTask.coming, hcoming, Bool.or_true]
  · show s.clear.hidden = s.clear.config.hidden ∨
      ∃ call ∈ s.clear.calls.set i _, Hides s.clear.hidden call
    rw [hcalls, hconfig, hhidden]
    rcases h.hides (List.ne_nil_of_mem (List.mem_of_getElem? hcall)) with hsame | ⟨found, hmem, hyes⟩
    · exact .inl hsame
    · exact .inr (((other_of_mem hcall hmem hyes).resolve_left id).mem_set _)
  · show ∃ call ∈ s.clear.calls.set i _, Renews parse s.clear.config call
    rw [hcalls, hconfig]
    rcases hcurrent with hclient | hother
    · exact ⟨_, mem_set hcall _, hclient⟩
    · exact hother.mem_set _

/-- Once the task whose handle is kept is aborted, no client can come. -/
theorem none_coming (hcleared : s.Cleared) : ∀ task ∈ s.abort.connects, task.coming = false := by
  have hquiet : ∀ task : ConnectTask, task.live = false →
      (task.point = .dialing → task.aborted = true) → task.coming = false := by
    intro task hlive haborted
    rw [ConnectTask.coming, hlive, Bool.false_or]
    by_cases hpoint : task.point = .dialing
    · rw [haborted hpoint, Bool.not_true, Bool.and_false]
    · rw [decide_eq_false hpoint, Bool.false_and]
  intro task hmem
  obtain ⟨m, htask⟩ := List.mem_iff_getElem?.mp hmem
  unfold NetDesk.abort at htask
  split at htask
  · next hnone =>
    obtain ⟨hlive, hdialing⟩ := hcleared m task htask
    refine hquiet task hlive fun hpoint => (hdialing hpoint).resolve_right fun hsome => ?_
    rw [hnone] at hsome
    cases hsome
  · next k hkept =>
    dsimp only at htask
    rw [List.getElem?_modify] at htask
    obtain ⟨before, hbefore, rfl⟩ := Option.map_eq_some_iff.mp htask
    obtain ⟨hlive, hdialing⟩ := hcleared m before hbefore
    split
    · exact hquiet _ hlive fun _ => rfl
    · next hne =>
      refine hquiet before hlive fun hpoint => (hdialing hpoint).resolve_right fun hsome => ?_
      exact hne (Option.some.inj (hkept.symm.trans hsome))

/-- A restart spawns its task. -/
theorem spawn (h : NetInv parse s) (hcall : s.calls[i]? = some (.aborting client))
    (hcurrent : s.Current parse i client) (hcleared : s.Cleared) (k : Nat) :
    NetInv parse ((s.abort.spawn client).goTo i (.keeping k)) := by
  have hkept : s.abort.calls = s.calls ∧ s.abort.config = s.config ∧ s.abort.hidden = s.hidden := by
    unfold NetDesk.abort
    split
    · exact ⟨rfl, rfl, rfl⟩
    · exact ⟨rfl, rfl, rfl⟩
  obtain ⟨hcalls, hconfig, hhidden⟩ := hkept
  have hnobody : s.abort.connects.filter ConnectTask.coming = [] :=
    List.filter_eq_nil_iff.mpr fun task hmem => by
      rw [none_coming hcleared task hmem]
      decide
  have hone : (s.abort.spawn client).candidates = [client] := by
    show ((s.abort.connects ++ [_]).filter ConnectTask.coming).map ConnectTask.client = _
    rw [List.filter_append, hnobody]
    rfl
  refine ⟨?_, fun _ => ?_, fun _ => ?_⟩
  · show (s.abort.spawn client).connects.countP ConnectTask.coming ≤ 1
    rw [← length_candidates, hone]
    exact Nat.le_refl 1
  · show s.abort.hidden = s.abort.config.hidden ∨
      ∃ call ∈ s.abort.calls.set i _, Hides s.abort.hidden call
    rw [hcalls, hconfig, hhidden]
    rcases h.hides (List.ne_nil_of_mem (List.mem_of_getElem? hcall)) with hsame | ⟨found, hmem, hyes⟩
    · exact .inl hsame
    · exact .inr (((other_of_mem hcall hmem hyes).resolve_left id).mem_set _)
  · show (∃ call ∈ s.abort.calls.set i _, Renews parse s.abort.config call) ∨
      (s.abort.spawn client).candidates = (s.abort.config.client? parse).toList
    rw [hcalls, hconfig, hone]
    rcases hcurrent with hclient | hother
    · exact .inr (by rw [hclient]; rfl)
    · exact .inl (hother.mem_set _)

/-- A task goes on with its client, and can bring it up as before. -/
theorem set_connect (h : NetInv parse s) (htask : s.connects[i]? = some task) {other : ConnectTask}
    (hclient : other.client = task.client) (hcoming : other.coming = task.coming)
    (relay : Option Nat) :
    NetInv parse { s with relay := relay, connects := s.connects.set i other } := by
  have hsame : ({ s with relay := relay, connects := s.connects.set i other } : NetDesk).candidates =
      s.candidates := map_filter_set_same htask hcoming hclient
  refine ⟨?_, h.hides, fun hcalls => ?_⟩
  · rw [← length_candidates, hsame, length_candidates]
    exact h.single
  · rw [hsame]
    exact h.tracked hcalls

/-- A new call. -/
theorem new_call (h : NetInv parse s) (hstarted : s.Started) (call : NetCall) :
    NetInv parse { s with calls := s.calls ++ [call] } := by
  have hcalls : s.calls ≠ [] := by
    intro hnil
    rw [Started, hnil] at hstarted
    cases hstarted
  refine ⟨h.single, fun _ => ?_, fun _ => ?_⟩
  · refine (h.hides hcalls).imp id ?_
    rintro ⟨found, hmem, hyes⟩
    exact ⟨found, List.mem_append_left _ hmem, hyes⟩
  · refine (h.tracked hcalls).imp ?_ id
    rintro ⟨found, hmem, hyes⟩
    exact ⟨found, List.mem_append_left _ hmem, hyes⟩

/-- One step of a call that meets the guard. -/
theorem advance (h : NetInv parse s) (hcall : s.calls[i]? = some call)
    (hcareful : Careful parse [] s (.advance i)) (hnext : s.advance parse i call = some next) :
    NetInv parse next := by
  simp only [Careful, hcall] at hcareful
  cases call with
  | loading hidden =>
    obtain rfl := Option.some.inj hnext
    exact h.go_to hcall (fun _ => .inl trivial) fun hyes => absurd hyes id
  | storing hidden was =>
    obtain rfl := Option.some.inj hnext
    exact ⟨h.single, fun _ => .inr ⟨_, mem_set hcall _, rfl⟩, fun _ => h.tracked_set hcall .inl⟩
  | writing hidden was =>
    obtain ⟨hagrees, hheeds⟩ := hcareful
    simp only [NetDesk.advance] at hnext
    split at hnext
    · obtain rfl := Option.some.inj hnext
      exact h.write_restart hcall hagrees
    · next hno =>
      obtain rfl := Option.some.inj hnext
      exact h.write hcall hagrees rfl hno (hheeds.resolve_left hno)
  | saving settings =>
    obtain ⟨hagrees, hheeds⟩ := hcareful
    simp only [NetDesk.advance] at hnext
    split at hnext
    · obtain rfl := Option.some.inj hnext
      exact h.write_restart hcall hagrees
    · next hno =>
      obtain rfl := Option.some.inj hnext
      refine h.write hcall hagrees ?_ id (hheeds.resolve_left hno)
      by_contra hne
      refine hno ?_
      simp only [NetConfig.relayChanged, Bool.or_eq_true, decide_eq_true_eq]
      exact .inl fun heq => hne (congrArg Prod.fst heq).symm
  | reading =>
    simp only [NetDesk.advance] at hnext
    split at hnext
    · next hnone =>
      obtain rfl := Option.some.inj hnext
      refine h.go_to hcall (fun hyes => absurd hyes id) fun _ => .inr (.inr ?_)
      have hnobody : s.connects.filter ConnectTask.coming = [] :=
        List.filter_eq_nil_iff.mpr fun task hmem => by
          rw [hcareful hnone task hmem]
          decide
      rw [candidates, hnobody, hnone]
      rfl
    · next client hsome =>
      obtain rfl := Option.some.inj hnext
      exact h.go_to hcall (fun hyes => absurd hyes id) fun _ => .inl hsome
  | clearing client =>
    obtain rfl := Option.some.inj hnext
    exact h.clear hcall hcareful
  | aborting client =>
    obtain rfl := Option.some.inj hnext
    exact h.spawn hcall hcareful.1 hcareful.2 s.connects.length
  | keeping k =>
    obtain rfl := Option.some.inj hnext
    have hkept : NetInv parse { s with relayConnectTask := some k } :=
      ⟨h.single, h.hides, h.tracked⟩
    exact hkept.go_to hcall (fun hyes => absurd hyes id) fun hyes => absurd hyes id
  | ended => cases hnext

/-- One step of a task. -/
theorem connect (h : NetInv parse s) (htask : s.connects[i]? = some task)
    (hnext : s.connected i task = some next) : NetInv parse next := by
  unfold connected at hnext
  split at hnext
  · next hpoint =>
    split at hnext
    · cases hnext
    · next halive =>
      obtain rfl := Option.some.inj hnext
      refine h.set_connect htask ?_ ?_ s.relay
      · rfl
      · simp [ConnectTask.coming, hpoint, halive]
  · next hpoint =>
    obtain rfl := Option.some.inj hnext
    refine h.set_connect htask ?_ ?_ (some i)
    · rfl
    · simp [ConnectTask.coming, hpoint]
  · cases hnext

/-- What the app keeps, it keeps with every step that meets the guard. -/
theorem step {input : NetInput} {trace emitted : List Empty} (h : NetInv parse s)
    (hcareful : Careful parse trace s input)
    (hnext : NetDesk.step parse s input = some (next, emitted)) : NetInv parse next := by
  cases input with simp only [NetDesk.step] at hnext
  | start =>
    split at hnext
    · obtain ⟨rfl, -⟩ := answer_inj hnext
      exact ⟨h.single, fun _ => .inl rfl, fun _ => .inl ⟨.reading, by simp, trivial⟩⟩
    · obtain ⟨rfl, -⟩ := answer_inj hnext
      exact h
  | setHidden hidden =>
    split at hnext
    · next hstarted =>
      obtain ⟨rfl, -⟩ := answer_inj hnext
      exact h.new_call hstarted (.loading hidden)
    · obtain ⟨rfl, -⟩ := answer_inj hnext
      exact h
  | saveSettings settings =>
    split at hnext
    · next hstarted =>
      obtain ⟨rfl, -⟩ := answer_inj hnext
      exact h.new_call hstarted (.saving settings)
    · obtain ⟨rfl, -⟩ := answer_inj hnext
      exact h
  | advance i =>
    obtain ⟨after, hafter, heq⟩ := Option.map_eq_some_iff.mp hnext
    obtain ⟨rfl, -⟩ := Prod.mk.inj heq
    obtain ⟨call, hcall, hgo⟩ := Option.bind_eq_some_iff.mp hafter
    exact h.advance hcall hcareful hgo
  | connect i =>
    obtain ⟨after, hafter, heq⟩ := Option.map_eq_some_iff.mp hnext
    obtain ⟨rfl, -⟩ := Prod.mk.inj heq
    obtain ⟨task, htask, hgo⟩ := Option.bind_eq_some_iff.mp hafter
    exact h.connect htask hgo
  | wait i =>
    split at hnext
    · cases hnext
    · next task htask =>
      split at hnext
      · next haborted =>
        obtain ⟨rfl, -⟩ := answer_inj hnext
        refine h.set_connect htask ?_ ?_ s.relay
        · rfl
        · simp [ConnectTask.coming, haborted.1]
      · obtain ⟨rfl, -⟩ := answer_inj hnext
        exact h

/-- What the app keeps before `start`. -/
theorem off (config : NetConfig) : NetInv parse (NetDesk.off config) where
  single := Nat.zero_le 1
  hides hcalls := absurd rfl hcalls
  tracked hcalls := absurd rfl hcalls

/-- What the app keeps makes the settings take effect. -/
theorem in_effect (h : NetInv parse s) : InEffect parse s := by
  refine ⟨?_, fun hstarted hidle => ?_⟩
  · rw [liveClients, List.length_map, ← List.countP_eq_length_filter]
    refine Nat.le_trans (List.countP_mono_left fun task _ hlive => ?_) h.single
    rw [ConnectTask.coming, hlive, Bool.true_or]
  · have hcalls : s.calls ≠ [] := by
      intro hnil
      rw [Started, hnil] at hstarted
      cases hstarted
    constructor
    · have hlive : s.liveClients = s.candidates := by
        unfold liveClients candidates
        refine congrArg _ (List.filter_congr fun task hmem => ?_)
        simp [ConnectTask.coming, hidle.2 task hmem]
      rcases h.tracked hcalls with ⟨call, hmem, hyes⟩ | hsame
      · rw [hidle.1 call hmem] at hyes
        exact absurd hyes id
      · exact hlive.trans hsame
    · rcases h.hides hcalls with hsame | ⟨call, hmem, hyes⟩
      · exact hsame
      · rw [hidle.1 call hmem] at hyes
        exact absurd hyes id

end NetInv

/-- In a run that keeps to the guard, one relay client at most is live, and once everything has
settled the settings have taken effect. -/
theorem network_run (parse : String → Option SocketAddr) {config : NetConfig}
    {inputs : List NetInput} {trace : List Empty}
    (h : Exec (step parse) (Careful parse) (off config) inputs trace s) : InEffect parse s := by
  have hinv : NetInv parse s := by
    induction h with
    | start => exact .off config
    | step _ hcareful hnext ih => exact ih.step hcareful hnext
  exact hinv.in_effect

instance (parse : String → Option SocketAddr) (config : NetConfig) (call : NetCall) :
    Decidable (Renews parse config call) := by
  unfold Renews
  split
  all_goals exact inferInstance

instance (hidden : Bool) (call : NetCall) : Decidable (Hides hidden call) := by
  unfold Hides
  split
  all_goals exact inferInstance

theorem other_iff {holds : NetCall → Prop} :
    (∃ entry ∈ s.calls.zipIdx, entry.2 ≠ i ∧ holds entry.1) ↔ s.Other i holds :=
  exists_place_iff fun call j => j ≠ i ∧ holds call

instance (s : NetDesk) (i : Nat) (holds : NetCall → Prop) [DecidablePred holds] :
    Decidable (s.Other i holds) :=
  decidable_of_iff _ other_iff

instance (s : NetDesk) (i : Nat) (config : NetConfig) : Decidable (s.Agrees i config) :=
  inferInstanceAs (Decidable (_ ∨ s.Other i fun call => Hides s.hidden call))

instance (parse : String → Option SocketAddr) (s : NetDesk) (i : Nat) (config : NetConfig) :
    Decidable (s.Heeds parse i config) :=
  inferInstanceAs (Decidable (_ ∨ s.Other i fun call => Renews parse config call))

instance (parse : String → Option SocketAddr) (s : NetDesk) (i : Nat)
    (client : RelayClientConfig) : Decidable (s.Current parse i client) :=
  inferInstanceAs (Decidable (_ ∨ s.Other i fun call => Renews parse s.config call))

theorem cleared_iff :
    (∀ entry ∈ s.connects.zipIdx, entry.1.live = false ∧
      (entry.1.point = .dialing → entry.1.aborted = true ∨ s.relayConnectTask = some entry.2)) ↔
      s.Cleared :=
  forall_place_iff fun (task : ConnectTask) k => task.live = false ∧
    (task.point = .dialing → task.aborted = true ∨ s.relayConnectTask = some k)

instance (s : NetDesk) : Decidable s.Cleared := decidable_of_iff _ cleared_iff

instance (parse : String → Option SocketAddr) (trace : List Empty) (s : NetDesk) :
    ∀ input, Decidable (Careful parse trace s input) := by
  intro input
  unfold Careful
  cases input with
  | advance i =>
    dsimp only
    split
    all_goals exact inferInstance
  | _ => exact inferInstance

/-- A parser that knows one address. -/
def sampleParse (text : String) : Option SocketAddr :=
  if text = "10.0.0.1:9443" then some { ip := .v4 10 0 0 1, port := 9443 } else none

/-- A relay is configured. -/
def sampleConfig : NetConfig where
  deviceName := "a"
  hidden := false
  relayEnabled := true
  relayServer := "10.0.0.1:9443"
  relayPsk := "0123456789abcdef"

/-- The app starts, and its client is registered. -/
def sampleStart : List NetInput :=
  [.start, .advance 0, .advance 0, .advance 0, .advance 0, .connect 0, .connect 0]

/-- The settings with which the relay is no longer enabled. -/
def sampleSettings : SettingsDto where
  deviceName := "a"
  hidden := false
  relayEnabled := false
  relayAddr := "10.0.0.1:9443"
  relayPsk := "0123456789abcdef"

/-- The relay is disabled in the settings: the restart finds that it is, and returns before it has
shut the client down. -/
theorem disabled_client_stays :
    ¬ ∀ (parse : String → Option SocketAddr) (config : NetConfig) (inputs : List NetInput)
      (trace : List Empty) (s : NetDesk),
      Exec (step parse) Guard.free (off config) inputs trace s → InEffect parse s := by
  intro hall
  obtain ⟨trace, last, hexec, hview⟩ := exec_reaches (step sampleParse) Guard.free
    (off sampleConfig)
    (sampleStart ++ [.saveSettings sampleSettings, .advance 1, .advance 1])
    (fun s => (s.calls, s.connects.map ConnectTask.point, s.liveClients.length,
      s.config.client? sampleParse))
    ([.ended, .ended], [.ended], 1, none) (by decide +kernel)
  simp only [Prod.mk.injEq] at hview
  obtain ⟨hcalls, hpoints, hlive, hclient⟩ := hview
  have hidle : last.Idle := by
    refine ⟨fun call hmem => ?_, fun task hmem => ?_⟩
    · rw [hcalls] at hmem
      simpa using hmem
    · have hpoint := List.mem_map_of_mem (f := ConnectTask.point) hmem
      rw [hpoints] at hpoint
      simpa using hpoint
  have hnone := ((hall _ _ _ _ _ hexec).settled (by rw [Started, hcalls]; rfl) hidle).1
  rw [hclient] at hnone
  rw [hnone] at hlive
  cases hlive

/-- The device is hidden, and the client registers anew. -/
theorem network_run_sample : ∃ trace s,
    Exec (step sampleParse) (Careful sampleParse) (off sampleConfig)
      (sampleStart ++ [.setHidden true, .advance 1, .advance 1, .advance 1, .advance 1, .advance 1,
        .advance 1, .advance 1, .connect 1, .connect 1]) trace s ∧ InEffect sampleParse s := by
  obtain ⟨trace, last, hexec, -⟩ := exec_reaches (step sampleParse) (Careful sampleParse)
    (off sampleConfig)
    (sampleStart ++ [.setHidden true, .advance 1, .advance 1, .advance 1, .advance 1, .advance 1,
      .advance 1, .advance 1, .connect 1, .connect 1])
    (fun s => (s.calls, s.liveClients.map RelayClientConfig.hidden, s.hidden))
    ([.ended, .ended], [true], true) (by decide +kernel)
  exact ⟨trace, last, hexec, network_run sampleParse hexec⟩

end NetDesk

end LocalTrans.Ffi
