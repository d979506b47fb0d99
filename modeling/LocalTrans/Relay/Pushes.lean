import LocalTrans.Relay.Client
import Mathlib.Data.List.Nodup

/-!
# Pushes that are received

`recv_uni` awaits the next stream and then its bytes, in a branch of a `select!` whose other branch
is the ping. Where the ping wins, the stream that was accepted is dropped. `undisturbed` says when
no push goes that way; then each push that has arrived whole is given to `handle_push` once.
-/

namespace LocalTrans.Relay

open Foundation

namespace RelayClient

/-- A stream has arrived whole. -/
def complete (s : RelayClient) (i : Nat) : Bool :=
  s.streams[i]?.any fun stream => stream.arrived = stream.frame.length

/-- A stream is still to be accepted, or being read. -/
def waits (s : RelayClient) (i : Nat) : Bool :=
  i < s.streams.length && (s.accepted ≤ i || s.reader = some i)

/-- The streams that have arrived whole and are still to be read. -/
def backlog (s : RelayClient) : List Nat :=
  (List.range s.streams.length).filter fun i => s.waits i && s.complete i

/-- The streams that have been read. -/
def finished (s : RelayClient) : Nat :=
  s.accepted - if s.reader.isSome then 1 else 0

end RelayClient

/-- The connection and the stream of a message that was handled. -/
def ClientEvent.handledAt : ClientEvent → Option (Nat × Nat)
  | .handled conn stream _ => some (conn, stream)
  | _ => none

/-- How often the message of a stream was given to `handle_push`. -/
def timesHandled (trace : List ClientEvent) (conn stream : Nat) : Nat :=
  (trace.filterMap ClientEvent.handledAt).count (conn, stream)

/-- The condition on one step: when the ping is due, no stream is accepted and not read to its end;
the loop ends only when nothing that has arrived whole waits; and the client does not dial again. -/
def undisturbed : Guard RelayClient ClientInput ClientEvent :=
  fun _ s input =>
    match input with
    | .tick pinged => s.reader = none ∧ (pinged = true ∧ s.up = true ∨ s.backlog = [])
    | .poll => s.up = true ∨ s.backlog = [] ∨ s.next.any s.complete = true
    | .dialed => s.phase ≠ .dialing false
    | _ => True

instance (trace : List ClientEvent) (s : RelayClient) (input : ClientInput) :
    Decidable (undisturbed trace s input) := by
  unfold undisturbed
  split <;> infer_instance

/-- A push that has arrived whole was handled once, or waits to be read by the task. None is handled
twice, and what is handled was pushed. -/
structure Delivered (trace : List ClientEvent) (s : RelayClient) : Prop where
  once : ∀ conn i, .complete conn i ∈ trace → timesHandled trace conn i = 1 ∨
    timesHandled trace conn i = 0 ∧ s.conn = some conn ∧ s.phase = .selecting ∧ s.waits i = true
  most : ∀ conn i, timesHandled trace conn i ≤ 1
  pushed : ∀ conn i msg, .handled conn i msg ∈ trace → .pushed conn i msg ∈ trace

namespace RelayClient

variable {fromJson : List UInt8 → Except String RelayMsg} {s next : RelayClient}
  {input : ClientInput} {inputs : List ClientInput} {trace emitted : List ClientEvent}

/-- The loop runs on the first connection: its streams were pushed and are read in order. -/
structure Receiving (fromJson : List UInt8 → Except String RelayMsg) (trace : List ClientEvent)
    (s : RelayClient) : Prop where
  conn : s.conn = some 0
  phase : s.phase = .selecting
  frames : ∀ i stream, s.streams[i]? = some stream → stream.arrived ≤ stream.frame.length ∧
    ∃ msg, .pushed 0 i msg ∈ trace ∧ encodeRelayMsg msg = .ok stream.frame ∧
      fromJson msg.body = .ok msg
  complete : ∀ conn i, .complete conn i ∈ trace ↔ conn = 0 ∧ s.complete i = true
  handled : trace.filterMap ClientEvent.handledAt = (List.range s.finished).map (0, ·)
  finished : ∀ i < s.finished, s.complete i = true
  accepted : s.accepted ≤ s.streams.length
  reader : ∀ i, s.reader = some i → i + 1 = s.accepted

/-- The loop is over, or not begun, and nothing that arrived is left. -/
structure Quiet (trace : List ClientEvent) (s : RelayClient) : Prop where
  conn : s.conn = none
  phase : s.phase ≠ .selecting
  first : s.phase = .dialing true ∨ s.phase = .waiting true → s.dials = 0 ∧
    (∀ conn i, .complete conn i ∉ trace) ∧ trace.filterMap ClientEvent.handledAt = []
  done : ∀ conn i, .complete conn i ∈ trace → timesHandled trace conn i = 1
  most : ∀ conn i, timesHandled trace conn i ≤ 1

theorem complete_iff {i : Nat} : s.complete i = true ↔
    ∃ stream, s.streams[i]? = some stream ∧ stream.arrived = stream.frame.length := by
  unfold complete
  cases s.streams[i]? with
  | none => simp
  | some stream => simp

theorem Receiving.times_handled (h : Receiving fromJson trace s) (conn i : Nat) :
    timesHandled trace conn i = if conn = 0 ∧ i < s.finished then 1 else 0 := by
  have hnodup : ((List.range s.finished).map fun i => (0, i)).Nodup :=
    List.Nodup.map (fun _ _ heq => (Prod.mk.inj heq).2) List.nodup_range
  rw [timesHandled, h.handled, hnodup.count]
  simp [eq_comm, and_comm]

/-- Without a stream that is being read, the accepted ones have been read. -/
theorem Receiving.finished_cases (h : Receiving fromJson trace s) :
    (s.reader = none ∧ s.finished = s.accepted) ∨
      s.reader = some s.finished ∧ s.finished + 1 = s.accepted := by
  cases hreader : s.reader with
  | none => exact .inl ⟨rfl, by simp [RelayClient.finished, hreader]⟩
  | some i =>
    have hlast := h.reader i hreader
    have hfinished : s.finished = i := by
      simp only [RelayClient.finished, hreader, Option.isSome_some, if_true]
      omega
    exact .inr ⟨by rw [hfinished], by omega⟩

theorem Receiving.waits_iff (h : Receiving fromJson trace s) {i : Nat} :
    s.waits i = true ↔ s.finished ≤ i ∧ i < s.streams.length := by
  simp only [waits, Bool.and_eq_true, Bool.or_eq_true, decide_eq_true_eq]
  rcases h.finished_cases with ⟨hnone, hfinished⟩ | ⟨hsome, hfinished⟩
  · rw [hnone, hfinished]
    simp [and_comm]
  · rw [hsome]
    simp only [Option.some.injEq]
    omega

/-- Where nothing has to wait, what has arrived whole was handled. -/
theorem Receiving.read_of_no_backlog (h : Receiving fromJson trace s) (hbacklog : s.backlog = [])
    {i : Nat} (hcomplete : s.complete i = true) : i < s.finished := by
  obtain ⟨stream, hstream, -⟩ := complete_iff.mp hcomplete
  have hlt : i < s.streams.length := (List.getElem?_eq_some_iff.mp hstream).1
  by_contra hnot
  have hmem : i ∈ s.backlog := by
    refine List.mem_filter.mpr ⟨List.mem_range.mpr hlt, ?_⟩
    rw [h.waits_iff.mpr ⟨Nat.le_of_not_lt hnot, hlt⟩, hcomplete]
    rfl
  rw [hbacklog] at hmem
  cases hmem

/-- The task reads the first stream that was not read to its end. -/
theorem Receiving.next_eq (h : Receiving fromJson trace s) {i : Nat} (hnext : s.next = some i) :
    i = s.finished ∧ i < s.streams.length := by
  unfold RelayClient.next at hnext
  rcases h.finished_cases with ⟨hnone, hfinished⟩ | ⟨hsome, hfinished⟩
  · rw [hnone, Option.none_or] at hnext
    obtain ⟨hopen, hnext⟩ := of_when hnext
    obtain rfl := Option.some.inj hnext
    obtain ⟨stream, hmem, -⟩ := List.any_eq_true.mp hopen
    have hpos := List.length_pos_of_mem hmem
    rw [List.length_drop] at hpos
    exact ⟨hfinished.symm, by omega⟩
  · rw [hsome, Option.some_or] at hnext
    obtain rfl := Option.some.inj hnext
    have hle := h.accepted
    exact ⟨rfl, by omega⟩

/-- A stream that has arrived whole and is the next one is read. -/
theorem Receiving.next_of_complete (h : Receiving fromJson trace s)
    (hcomplete : s.complete s.finished = true) : s.next = some s.finished := by
  obtain ⟨stream, hstream, hwhole⟩ := complete_iff.mp hcomplete
  unfold RelayClient.next
  rcases h.finished_cases with ⟨hnone, hfinished⟩ | ⟨hsome, -⟩
  · obtain ⟨-, msg, -, hencoded, -⟩ := h.frames _ _ hstream
    have hpos := encoded_pos hencoded
    have hopen : ((s.streams.drop s.accepted).any fun stream => 0 < stream.arrived) = true := by
      refine List.any_eq_true.mpr ⟨stream, ?_, by simp only [decide_eq_true_eq]; omega⟩
      refine List.mem_of_getElem? (i := 0) ?_
      rw [List.getElem?_drop, Nat.add_zero, ← hfinished]
      exact hstream
    rw [hnone, hopen, Option.none_or, if_pos rfl, hfinished]
  · rw [hsome, Option.some_or]

theorem Receiving.read_complete (h : Receiving fromJson trace s) {i : Nat}
    (hcomplete : s.complete i = true) :
    ∃ msg, readUni fromJson (s.received i) = .item msg [] ∧ .pushed 0 i msg ∈ trace := by
  obtain ⟨stream, hstream, hwhole⟩ := complete_iff.mp hcomplete
  obtain ⟨-, msg, hpushed, hencoded, hparsed⟩ := h.frames i stream hstream
  refine ⟨msg, ?_, hpushed⟩
  have hreceived : s.received i = stream.frame := by
    simp [received, hstream, hwhole]
  rw [hreceived]
  exact read_uni_encoded hencoded hparsed

theorem Receiving.read_part (h : Receiving fromJson trace s) {i : Nat}
    (hlt : i < s.streams.length) (hpart : s.complete i = false) :
    readUni fromJson (s.received i) = .incomplete := by
  have hstream : s.streams[i]? = some s.streams[i] := List.getElem?_eq_getElem hlt
  obtain ⟨hle, msg, -, hencoded, -⟩ := h.frames i _ hstream
  have hne : s.streams[i].arrived ≠ s.streams[i].frame.length := by
    intro hwhole
    rw [complete_iff.mpr ⟨_, hstream, hwhole⟩] at hpart
    cases hpart
  have hreceived : s.received i = s.streams[i].frame.take s.streams[i].arrived := by
    simp [received, hstream]
  rw [hreceived]
  exact read_uni_part hencoded (by omega)

/-- The loop is left when nothing that has arrived whole waits. -/
theorem Receiving.leave (h : Receiving fromJson trace s) (hbacklog : s.backlog = []) :
    Quiet trace s.leave := by
  refine ⟨rfl, ?_, ?_, ?_, ?_⟩
  · unfold RelayClient.leave
    cases s.shutdown <;> simp
  · unfold RelayClient.leave
    cases s.shutdown <;> simp
  · intro conn i hmem
    obtain ⟨rfl, hcomplete⟩ := (h.complete conn i).mp hmem
    rw [h.times_handled, if_pos ⟨rfl, h.read_of_no_backlog hbacklog hcomplete⟩]
  · intro conn i
    rw [h.times_handled]
    split <;> omega

/-- An event that is no handling leaves the handled ones as they are. -/
theorem handled_append (hsilent : ∀ event ∈ emitted, event.handledAt = none) :
    (trace ++ emitted).filterMap ClientEvent.handledAt = trace.filterMap ClientEvent.handledAt := by
  rw [List.filterMap_append, List.filterMap_eq_nil_iff.mpr hsilent, List.append_nil]

theorem Receiving.push (h : Receiving fromJson trace s) {msg : RelayMsg} {frame : List UInt8}
    (hencoded : encodeRelayMsg msg = .ok frame) (hparsed : fromJson msg.body = .ok msg) :
    Receiving fromJson (trace ++ [.pushed 0 s.streams.length msg])
      { s with streams := s.streams ++ [{ frame, arrived := 0 }] } := by
  have hpos := encoded_pos hencoded
  have hsame : ∀ i, RelayClient.complete { s with streams := s.streams ++ [{ frame, arrived := 0 }] } i =
      s.complete i := by
    intro i
    unfold RelayClient.complete
    by_cases hlt : i < s.streams.length
    · rw [List.getElem?_append_left hlt]
    · rw [List.getElem?_append_right (Nat.le_of_not_lt hlt),
        List.getElem?_eq_none (Nat.le_of_not_lt hlt)]
      rcases Nat.eq_zero_or_pos (i - s.streams.length) with hzero | hlater
      · rw [hzero]
        simp only [List.getElem?_cons_zero, Option.any_some, Option.any_none, decide_eq_false_iff_not]
        omega
      · rw [List.getElem?_eq_none hlater]
  refine ⟨h.conn, h.phase, fun i stream hstream => ?_, ?_, ?_, ?_, ?_, h.reader⟩
  · replace hstream :
        (s.streams ++ [({ frame, arrived := 0 } : PushStream)])[i]? = some stream := hstream
    by_cases hlt : i < s.streams.length
    · rw [List.getElem?_append_left hlt] at hstream
      obtain ⟨hle, found, hpushed, hframe⟩ := h.frames i stream hstream
      exact ⟨hle, found, List.mem_append_left _ hpushed, hframe⟩
    · have hlast := (List.getElem?_eq_some_iff.mp hstream).1
      obtain rfl : i = s.streams.length := by
        rw [List.length_append, List.length_singleton] at hlast
        omega
      rw [List.getElem?_concat_length] at hstream
      obtain rfl := Option.some.inj hstream
      exact ⟨Nat.zero_le _, msg, by simp, hencoded, hparsed⟩
  · intro conn i
    rw [hsame]
    simpa using h.complete conn i
  · rw [handled_append (by simp [ClientEvent.handledAt])]
    exact h.handled
  · intro i hlt
    rw [hsame]
    exact h.finished i hlt
  · have hle := h.accepted
    show s.accepted ≤ (s.streams ++ [_]).length
    rw [List.length_append]
    omega

/-- Bytes arrive on a stream. -/
theorem Receiving.arrive (h : Receiving fromJson trace s) {i arrived : Nat} {stream : PushStream}
    (hstream : s.streams[i]? = some stream) (hpart : stream.arrived < stream.frame.length)
    (hle : arrived ≤ stream.frame.length) :
    Receiving fromJson
      (trace ++ if arrived = stream.frame.length then [.complete 0 i] else [])
      { s with streams := s.streams.set i { stream with arrived } } := by
  have hlt : i < s.streams.length := (List.getElem?_eq_some_iff.mp hstream).1
  have hhere : (s.streams.set i { stream with arrived })[i]? = some { stream with arrived } := by
    rw [List.getElem?_set_self hlt]
  have hother : ∀ j, j ≠ i →
      (s.streams.set i { stream with arrived })[j]? = s.streams[j]? := fun j hne =>
    List.getElem?_set_ne (Ne.symm hne)
  have hbefore : s.complete i = false := by
    unfold RelayClient.complete
    simp only [hstream, Option.any_some, decide_eq_false_iff_not]
    omega
  have hafter : RelayClient.complete { s with streams := s.streams.set i { stream with arrived } } i =
      decide (arrived = stream.frame.length) := by
    simp only [RelayClient.complete, hhere, Option.any_some]
  have hsame : ∀ j, j ≠ i →
      RelayClient.complete { s with streams := s.streams.set i { stream with arrived } } j =
        s.complete j := by
    intro j hne
    simp only [RelayClient.complete, hother j hne]
  refine ⟨h.conn, h.phase, ?_, ?_, ?_, ?_, ?_, h.reader⟩
  · intro j found hfound
    by_cases hj : j = i
    · subst hj
      obtain ⟨-, msg, hpushed, hframe⟩ := h.frames j stream hstream
      rw [hhere] at hfound
      obtain rfl := Option.some.inj hfound
      exact ⟨hle, msg, List.mem_append_left _ hpushed, hframe⟩
    · rw [hother j hj] at hfound
      obtain ⟨hfits, msg, hpushed, hframe⟩ := h.frames j found hfound
      exact ⟨hfits, msg, List.mem_append_left _ hpushed, hframe⟩
  · intro conn j
    rw [List.mem_append, h.complete]
    by_cases hj : j = i
    · subst hj
      rw [hafter, hbefore]
      by_cases hwhole : arrived = stream.frame.length
      · simp [hwhole]
      · simp [hwhole]
    · rw [hsame j hj]
      by_cases hwhole : arrived = stream.frame.length
      · simp [hwhole, hj]
      · simp [hwhole]
  · rw [handled_append (by split <;> simp [ClientEvent.handledAt])]
    exact h.handled
  · intro j hfinished
    have hdone := h.finished j hfinished
    have hne : j ≠ i := by
      rintro rfl
      rw [hbefore] at hdone
      cases hdone
    rw [hsame j hne]
    exact hdone
  · show s.accepted ≤ (s.streams.set i _).length
    rw [List.length_set]
    exact h.accepted

theorem Receiving.accept_last (h : Receiving fromJson trace s) :
    max s.accepted (s.finished + 1) = s.finished + 1 := by
  rcases h.finished_cases with ⟨-, hfinished⟩ | ⟨-, hfinished⟩ <;> omega

/-- The stream that is accepted is the one that is read. -/
theorem Receiving.accept (h : Receiving fromJson trace s) (hlt : s.finished < s.streams.length) :
    Receiving fromJson trace (s.accept s.finished) := by
  have haccepted := h.accept_last
  have hfinished : (s.accept s.finished).finished = s.finished := by
    simp only [RelayClient.finished, RelayClient.accept, Option.isSome_some, if_true] at haccepted ⊢
    omega
  refine ⟨h.conn, h.phase, h.frames, h.complete, ?_, ?_, ?_, ?_⟩
  · rw [hfinished]
    exact h.handled
  · rw [hfinished]
    exact h.finished
  · show max s.accepted (s.finished + 1) ≤ s.streams.length
    omega
  · intro i hreader
    obtain rfl := Option.some.inj hreader
    exact haccepted.symm

/-- The message of the stream is handled. -/
theorem Receiving.handle (h : Receiving fromJson trace s) (hcomplete : s.complete s.finished = true)
    (hlt : s.finished < s.streams.length) (msg : RelayMsg) :
    Receiving fromJson (trace ++ [.handled 0 s.finished msg])
      { s.accept s.finished with reader := none } := by
  have haccepted := h.accept_last
  have hfinished : RelayClient.finished { s.accept s.finished with reader := none } =
      s.finished + 1 := haccepted
  refine ⟨h.conn, h.phase, ?_, ?_, ?_, ?_, ?_, ?_⟩
  · intro i stream hstream
    obtain ⟨hle, found, hpushed, hframe⟩ := h.frames i stream hstream
    exact ⟨hle, found, List.mem_append_left _ hpushed, hframe⟩
  · intro conn i
    have hold : .complete conn i ∈ trace ++ [.handled 0 s.finished msg] ↔ .complete conn i ∈ trace := by
      simp
    exact hold.trans (h.complete conn i)
  · rw [hfinished, List.filterMap_append, h.handled, List.range_succ, List.map_append]
    rfl
  · intro i hread
    rw [hfinished] at hread
    rcases Nat.lt_succ_iff_lt_or_eq.mp hread with hbefore | rfl
    · exact h.finished i hbefore
    · exact hcomplete
  · show max s.accepted (s.finished + 1) ≤ s.streams.length
    omega
  · intro i hreader
    cases hreader

/-- What the task does with the streams, and that it handles what was pushed. -/
structure Flow (fromJson : List UInt8 → Except String RelayMsg) (trace : List ClientEvent)
    (s : RelayClient) : Prop where
  task : Receiving fromJson trace s ∨ Quiet trace s
  pushed : ∀ conn i msg, .handled conn i msg ∈ trace → .pushed conn i msg ∈ trace

/-- `recv_uni` is polled. -/
theorem Receiving.recv_uni (h : Receiving fromJson trace s)
    (hguard : s.up = true ∨ s.backlog = [] ∨ s.next.any s.complete = true)
    (hresult : s.recvUni fromJson 0 = (next, emitted)) :
    (Receiving fromJson (trace ++ emitted) next ∨ Quiet (trace ++ emitted) next) ∧
      ∀ conn i msg, .handled conn i msg ∈ emitted → .pushed conn i msg ∈ trace := by
  unfold recvUni at hresult
  split at hresult
  · next hnone =>
    obtain ⟨rfl, rfl⟩ := Prod.mk.inj hresult
    rw [List.append_nil]
    refine ⟨?_, by simp⟩
    split
    · exact .inl h
    · next hlost =>
      rcases hguard with hup | hbacklog | hcomplete
      · exact absurd hup hlost
      · exact .inr (h.leave hbacklog)
      · simp [hnone] at hcomplete
  · next i hnext =>
    obtain ⟨rfl, hlt⟩ := h.next_eq hnext
    cases hcomplete : s.complete s.finished with
    | true =>
      obtain ⟨msg, hread, hpushed⟩ := h.read_complete hcomplete
      rw [hread] at hresult
      obtain ⟨rfl, rfl⟩ := Prod.mk.inj hresult
      refine ⟨.inl (h.handle hcomplete hlt msg), ?_⟩
      intro conn i found hmem
      cases List.mem_singleton.mp hmem
      exact hpushed
    | false =>
      rw [h.read_part hlt hcomplete] at hresult
      obtain ⟨rfl, rfl⟩ := Prod.mk.inj hresult
      rw [List.append_nil]
      refine ⟨?_, by simp⟩
      split
      · exact .inl (h.accept hlt)
      · next hlost =>
        rcases hguard with hup | hbacklog | hwhole
        · exact absurd hup hlost
        · exact .inr (h.leave hbacklog)
        · simp [hnext, hcomplete] at hwhole

/-- The first registration. -/
theorem Quiet.register (h : Quiet trace s) (hphase : s.phase = .dialing true) :
    Receiving fromJson (trace ++ [.registered s.dials]) (s.register true) := by
  obtain ⟨hdials, hnone, hhandled⟩ := h.first (.inl hphase)
  refine ⟨congrArg some hdials, rfl, ?_, ?_, ?_, ?_, Nat.le_refl _, ?_⟩
  · intro i stream hstream
    cases hstream
  · intro conn i
    have hno : RelayClient.complete (s.register true) i = false := rfl
    simp [hno, hnone]
  · rw [handled_append (by simp [ClientEvent.handledAt]), hhandled]
    rfl
  · intro i hlt
    cases hlt
  · intro i hreader
    cases hreader

/-- A step that leaves a quiet task quiet. -/
theorem Quiet.keep (h : Quiet trace s) (hconn : next.conn = s.conn) (hdials : next.dials = s.dials)
    (hphase : next.phase ≠ .selecting) (hfirst : next.phase = .dialing true ∨
      next.phase = .waiting true → s.phase = .dialing true ∨ s.phase = .waiting true) :
    Quiet trace next :=
  ⟨hconn.trans h.conn, hphase, fun hnext => hdials ▸ h.first (hfirst hnext), h.done, h.most⟩

theorem Quiet.append (h : Quiet trace s) (hsilent : ∀ event ∈ emitted, event.handledAt = none)
    (hcomplete : ∀ conn i, .complete conn i ∉ emitted) : Quiet (trace ++ emitted) s := by
  have hsame : ∀ conn i, timesHandled (trace ++ emitted) conn i = timesHandled trace conn i := by
    intro conn i
    rw [timesHandled, handled_append hsilent, timesHandled]
  refine ⟨h.conn, h.phase, fun hfirst => ?_, fun conn i hmem => ?_, fun conn i => ?_⟩
  · obtain ⟨hdials, hnone, hhandled⟩ := h.first hfirst
    refine ⟨hdials, fun conn i hmem => ?_, (handled_append hsilent).trans hhandled⟩
    rcases List.mem_append.mp hmem with hold | hnew
    · exact hnone conn i hold
    · exact hcomplete conn i hnew
  · rw [hsame]
    rcases List.mem_append.mp hmem with hold | hnew
    · exact h.done conn i hold
    · exact absurd hnew (hcomplete conn i)
  · rw [hsame]
    exact h.most conn i

/-- A step that changes neither the connection nor its streams. -/
theorem Receiving.keep (h : Receiving fromJson trace s) (hconn : next.conn = s.conn)
    (hphase : next.phase = s.phase) (hstreams : next.streams = s.streams)
    (haccepted : next.accepted = s.accepted) (hreader : next.reader = s.reader) :
    Receiving fromJson trace next := by
  have hcomplete : next.complete = s.complete := by
    funext i
    simp only [RelayClient.complete, hstreams]
  have hfinished : next.finished = s.finished := by
    simp only [RelayClient.finished, haccepted, hreader]
  refine ⟨hconn.trans h.conn, hphase.trans h.phase, hstreams ▸ h.frames, hcomplete ▸ h.complete,
    hfinished ▸ h.handled, ?_, ?_, ?_⟩
  · rw [hfinished, hcomplete]
    exact h.finished
  · rw [haccepted, hstreams]
    exact h.accepted
  · rw [haccepted, hreader]
    exact h.reader

theorem Receiving.append (h : Receiving fromJson trace s)
    (hsilent : ∀ event ∈ emitted, event.handledAt = none)
    (hcomplete : ∀ conn i, .complete conn i ∉ emitted) :
    Receiving fromJson (trace ++ emitted) s := by
  refine ⟨h.conn, h.phase, ?_, ?_, (handled_append hsilent).trans h.handled, h.finished, h.accepted,
    h.reader⟩
  · intro i stream hstream
    obtain ⟨hle, msg, hpushed, hframe⟩ := h.frames i stream hstream
    exact ⟨hle, msg, List.mem_append_left _ hpushed, hframe⟩
  · intro conn i
    rw [List.mem_append, or_iff_left (hcomplete conn i)]
    exact h.complete conn i

theorem Flow.mono (h : Flow fromJson trace s)
    (htask : Receiving fromJson (trace ++ emitted) next ∨ Quiet (trace ++ emitted) next)
    (hpushed : ∀ conn i msg, .handled conn i msg ∈ emitted → .pushed conn i msg ∈ trace) :
    Flow fromJson (trace ++ emitted) next := by
  refine ⟨htask, fun conn i msg hmem => List.mem_append_left _ ?_⟩
  rcases List.mem_append.mp hmem with hold | hnew
  · exact h.pushed conn i msg hold
  · exact hpushed conn i msg hnew

/-- A step that emits nothing of a stream, and changes nothing of one. -/
theorem Flow.still (h : Flow fromJson trace s) (hconn : next.conn = s.conn)
    (hphase : next.phase = s.phase) (hdials : next.dials = s.dials)
    (hstreams : next.streams = s.streams) (haccepted : next.accepted = s.accepted)
    (hreader : next.reader = s.reader) (hsilent : ∀ event ∈ emitted, event.handledAt = none)
    (hcomplete : ∀ conn i, .complete conn i ∉ emitted) : Flow fromJson (trace ++ emitted) next := by
  refine h.mono ?_ ?_
  · rcases h.task with hreceiving | hquiet
    · exact .inl ((hreceiving.keep hconn hphase hstreams haccepted hreader).append hsilent hcomplete)
    · have hkept := hquiet.keep hconn hdials (hphase ▸ hquiet.phase) fun hfirst => hphase ▸ hfirst
      exact .inr (hkept.append hsilent hcomplete)
  · intro conn i msg hmem
    have hnone := hsilent _ hmem
    simp [ClientEvent.handledAt] at hnone

theorem start_flow : Flow fromJson [] start :=
  ⟨.inr ⟨rfl, by decide, fun _ => ⟨rfl, by simp, rfl⟩, by simp, by simp [timesHandled]⟩, by simp⟩

/-- One step under the condition. -/
theorem Flow.step (h : Flow fromJson trace s) (hguard : undisturbed trace s input)
    (hparsed : ∀ msg, input = .push msg → fromJson msg.body = .ok msg)
    (hstep : step fromJson s input = some (next, emitted)) :
    Flow fromJson (trace ++ emitted) next := by
  cases input with simp only [RelayClient.step] at hstep
  | dialed =>
    split at hstep
    · next first hphase =>
      obtain ⟨rfl, rfl⟩ := answer_inj hstep
      refine h.mono ?_ (by simp)
      rcases h.task with hreceiving | hquiet
      · simp [hreceiving.phase] at hphase
      · cases first with
        | true => exact .inl (hquiet.register hphase)
        | false => exact absurd hphase hguard
    · cases hstep
  | dialFailed =>
    split at hstep
    · next first hphase =>
      obtain ⟨rfl, rfl⟩ := answer_inj hstep
      refine h.mono ?_ (by simp)
      rw [List.append_nil]
      rcases h.task with hreceiving | hquiet
      · simp [hreceiving.phase] at hphase
      · exact .inr (hquiet.keep rfl rfl (by simp) fun hfirst => .inl (by simpa [hphase] using hfirst))
    · cases hstep
  | wake =>
    split at hstep
    · next first hphase =>
      have hquiet : Quiet trace s := by
        rcases h.task with hreceiving | hquiet
        · simp [hreceiving.phase] at hphase
        · exact hquiet
      split at hstep
      · obtain ⟨rfl, rfl⟩ := answer_inj hstep
        refine h.mono (.inr ?_) (by simp)
        rw [List.append_nil]
        exact hquiet.keep rfl rfl (by simp) fun hfirst => by simp at hfirst
      · obtain ⟨rfl, rfl⟩ := answer_inj hstep
        refine h.mono (.inr ?_) (by simp)
        rw [List.append_nil]
        exact hquiet.keep rfl rfl (by simp) fun hfirst => .inr (by simpa [hphase] using hfirst)
    · cases hstep
  | push msg =>
    split at hstep
    · next conn frame hconn hencoded =>
      obtain ⟨-, rfl, rfl⟩ := when_answer hstep
      refine h.mono ?_ (by simp)
      rcases h.task with hreceiving | hquiet
      · obtain rfl : conn = 0 := by simpa [hreceiving.conn] using hconn.symm
        exact .inl (hreceiving.push hencoded (hparsed msg rfl))
      · simp [hquiet.conn] at hconn
    · cases hstep
  | arrive i count =>
    split at hstep
    · next conn stream hconn hstream =>
      obtain ⟨hopen, rfl, rfl⟩ := when_answer hstep
      refine h.mono ?_ (by split <;> simp)
      rcases h.task with hreceiving | hquiet
      · obtain rfl : conn = 0 := by simpa [hreceiving.conn] using hconn.symm
        exact .inl (hreceiving.arrive hstream hopen.2 (Nat.min_le_right _ _))
      · simp [hquiet.conn] at hconn
    · cases hstep
  | lost | close =>
    obtain ⟨-, rfl, rfl⟩ := when_answer hstep
    exact h.still rfl rfl rfl rfl rfl rfl (by simp) (by simp)
  | shutdown =>
    split at hstep
    · cases hstep
    · cases hstep
    · obtain ⟨rfl, rfl⟩ := answer_inj hstep
      exact h.still rfl rfl rfl rfl rfl rfl (by simp [ClientEvent.handledAt]) (by simp)
  | tick pinged =>
    obtain ⟨hreader, hping⟩ := hguard
    split at hstep
    · next conn hphase hconn =>
      split at hstep
      · obtain ⟨rfl, rfl⟩ := answer_inj hstep
        exact h.still rfl rfl rfl rfl rfl hreader.symm (by simp [ClientEvent.handledAt]) (by simp)
      · next hnot =>
        obtain ⟨rfl, rfl⟩ := answer_inj hstep
        refine h.mono ?_ (by simp)
        rw [List.append_nil]
        rcases h.task with hreceiving | hquiet
        · exact .inr (hreceiving.leave (hping.resolve_left hnot))
        · exact absurd hphase hquiet.phase
    · next hphase hconn =>
      rcases h.task with hreceiving | hquiet
      · simp [hreceiving.conn] at hconn
      · exact absurd hphase hquiet.phase
    · cases hstep
  | poll =>
    split at hstep
    · next conn hphase hconn =>
      rcases h.task with hreceiving | hquiet
      · obtain rfl : conn = 0 := by simpa [hreceiving.conn] using hconn.symm
        obtain ⟨htask, hpushed⟩ := hreceiving.recv_uni hguard (Option.some.inj hstep)
        exact h.mono htask hpushed
      · exact absurd hphase hquiet.phase
    · next hphase hconn =>
      rcases h.task with hreceiving | hquiet
      · simp [hreceiving.conn] at hconn
      · exact absurd hphase hquiet.phase
    · cases hstep

theorem flow_of_exec (hparsed : ∀ msg, .push msg ∈ inputs → fromJson msg.body = .ok msg)
    (h : Exec (RelayClient.step fromJson) undisturbed .start inputs trace s) :
    Flow fromJson trace s := by
  induction h with
  | start => exact start_flow
  | step _ hmeets hnext ih =>
    refine (ih fun msg hmem => hparsed msg (List.mem_append_left _ hmem)).step hmeets ?_ hnext
    rintro msg rfl
    exact hparsed msg (by simp)

theorem Flow.delivered (h : Flow fromJson trace s) : Delivered trace s := by
  rcases h.task with hreceiving | hquiet
  · refine ⟨fun conn i hmem => ?_, fun conn i => ?_, h.pushed⟩
    · obtain ⟨rfl, hcomplete⟩ := (hreceiving.complete conn i).mp hmem
      obtain ⟨stream, hstream, -⟩ := complete_iff.mp hcomplete
      have hlt : i < s.streams.length := (List.getElem?_eq_some_iff.mp hstream).1
      rw [hreceiving.times_handled]
      by_cases hread : i < s.finished
      · exact .inl (if_pos ⟨rfl, hread⟩)
      · exact .inr ⟨if_neg (by simp [hread]), hreceiving.conn, hreceiving.phase,
          hreceiving.waits_iff.mpr ⟨Nat.le_of_not_lt hread, hlt⟩⟩
    · rw [hreceiving.times_handled]
      split <;> omega
  · exact ⟨fun conn i hmem => .inl (hquiet.done conn i hmem), hquiet.most, h.pushed⟩

/-- The task reads a stream that has arrived whole. -/
theorem Receiving.poll (h : Receiving fromJson trace s) (hcomplete : s.complete s.finished = true) :
    ∃ msg, RelayClient.step fromJson s .poll = some ({ s.accept s.finished with reader := none },
      [.handled 0 s.finished msg]) ∧ undisturbed trace s .poll := by
  obtain ⟨msg, hread, -⟩ := h.read_complete hcomplete
  have hnext := h.next_of_complete hcomplete
  refine ⟨msg, ?_, .inr (.inr ?_)⟩
  · simp only [RelayClient.step, h.phase, h.conn, RelayClient.recvUni, hnext, hread]
  · rw [hnext]
    exact hcomplete

/-- Where everything that waits has arrived, polling handles it. -/
theorem catch_up (hparsed : ∀ msg, .push msg ∈ inputs → fromJson msg.body = .ok msg)
    (h : Exec (RelayClient.step fromJson) undisturbed .start inputs trace s)
    (harrived : ∀ i, s.waits i = true → s.complete i = true) :
    ∃ count trace' last, Exec (RelayClient.step fromJson) undisturbed .start
        (inputs ++ List.replicate count .poll) trace' last ∧
      ∀ conn i, .complete conn i ∈ trace → timesHandled trace' conn i = 1 := by
  induction hleft : s.streams.length - s.finished generalizing inputs trace s with
  | zero =>
    refine ⟨0, trace, s, by simpa using h, fun conn i hmem => ?_⟩
    rcases (flow_of_exec hparsed h).task with hreceiving | hquiet
    · obtain ⟨rfl, hcomplete⟩ := (hreceiving.complete conn i).mp hmem
      obtain ⟨stream, hstream, -⟩ := complete_iff.mp hcomplete
      have hlt : i < s.streams.length := (List.getElem?_eq_some_iff.mp hstream).1
      rw [hreceiving.times_handled, if_pos ⟨rfl, by omega⟩]
    · exact hquiet.done conn i hmem
  | succ left ih =>
    rcases (flow_of_exec hparsed h).task with hreceiving | hquiet
    · have hcomplete := harrived s.finished (hreceiving.waits_iff.mpr ⟨Nat.le_refl _, by omega⟩)
      obtain ⟨msg, hstep, hmeets⟩ := hreceiving.poll hcomplete
      have hlast := hreceiving.accept_last
      have hfinished : RelayClient.finished { s.accept s.finished with reader := none } =
          s.finished + 1 := hlast
      have hparsed' : ∀ msg, .push msg ∈ inputs ++ [.poll] → fromJson msg.body = .ok msg := by
        intro found hmem
        exact hparsed found (by simpa using hmem)
      have harrived' : ∀ i,
          RelayClient.waits { s.accept s.finished with reader := none } i = true →
            s.complete i = true := by
        intro i hwaits
        have hbounds : i < s.streams.length ∧ s.finished + 1 ≤ i := by
          simpa [waits, RelayClient.accept, hlast] using hwaits
        exact harrived i (hreceiving.waits_iff.mpr ⟨by omega, hbounds.1⟩)
      have hleft' : s.streams.length -
          RelayClient.finished { s.accept s.finished with reader := none } = left := by
        rw [hfinished]
        omega
      obtain ⟨count, trace', last, hexec, hhandled⟩ :=
        ih hparsed' (h.step hmeets hstep) harrived' hleft'
      refine ⟨count + 1, trace', last, ?_, fun conn i hmem => ?_⟩
      · rw [List.replicate_succ]
        simpa using hexec
      · exact hhandled conn i (List.mem_append_left _ hmem)
    · refine ⟨0, trace, s, by simpa using h, hquiet.done⟩

end RelayClient

/-- In a run whose steps all meet the condition, each push that has arrived whole was handled once or
waits to be read, and polling handles what waits once all of it has arrived. -/
theorem arrived_pushes_handled_once {fromJson : List UInt8 → Except String RelayMsg}
    {inputs : List ClientInput} {trace : List ClientEvent} {s : RelayClient}
    (hparsed : ∀ msg, .push msg ∈ inputs → fromJson msg.body = .ok msg)
    (h : Exec (RelayClient.step fromJson) undisturbed .start inputs trace s) :
    Delivered trace s ∧ ((∀ i, s.waits i = true → s.complete i = true) →
      ∃ count trace' last, Exec (RelayClient.step fromJson) undisturbed .start
          (inputs ++ List.replicate count .poll) trace' last ∧
        ∀ conn i, .complete conn i ∈ trace → timesHandled trace' conn i = 1) :=
  ⟨(RelayClient.flow_of_exec hparsed h).delivered, RelayClient.catch_up hparsed h⟩

/-- An empty roster. -/
def emptyRoster : RelayMsg := .roster 0 []

/-- A parser that knows the text of the empty roster. -/
def parseEmptyRoster (text : List UInt8) : Except String RelayMsg :=
  if text = emptyRoster.body then .ok emptyRoster else .error "expected value"

/-- The roster is pushed and its first bytes are read; the rest arrives, and the task polls and
pings, with the ping before the rest or after it was read. -/
def rosterAndPing (pingFirst : Bool) : List ClientInput :=
  [.dialed, .push emptyRoster, .arrive 0 10, .poll] ++
    if pingFirst then [.tick true, .arrive 0 100, .poll] else [.arrive 0 100, .poll, .tick true]

/-- The ping waits until the roster is read: the roster is handled. -/
theorem roster_handled_before_ping :
    ∃ trace s, Exec (RelayClient.step parseEmptyRoster) undisturbed .start (rosterAndPing false)
        trace s ∧ trace = [.registered 0, .pushed 0 0 emptyRoster, .complete 0 0,
          .handled 0 0 emptyRoster, .pinged 0] ∧ Delivered trace s := by
  have hrun : (Machine.run (RelayClient.step parseEmptyRoster) undisturbed [] .start
      (rosterAndPing false)).map Prod.snd = some [.registered 0, .pushed 0 0 emptyRoster,
        .complete 0 0, .handled 0 0 emptyRoster, .pinged 0] := by decide
  obtain ⟨⟨s, trace⟩, hrun, htrace⟩ := Option.map_eq_some_iff.mp hrun
  have hexec := Exec.start.append_run hrun
  have hparsed : ∀ msg, .push msg ∈ rosterAndPing false →
      parseEmptyRoster msg.body = .ok msg := by
    intro msg hmem
    obtain rfl : msg = emptyRoster := by simpa [rosterAndPing] using hmem
    exact if_pos rfl
  exact ⟨trace, s, hexec, htrace, (arrived_pushes_handled_once hparsed hexec).1⟩

/-- The ping is due while the roster is read: the roster arrives whole and is never handled. -/
theorem roster_lost_to_ping :
    ¬ ∀ (fromJson : List UInt8 → Except String RelayMsg) (inputs : List ClientInput)
      (trace : List ClientEvent) (s : RelayClient),
      (∀ msg, .push msg ∈ inputs → fromJson msg.body = .ok msg) →
      Exec (RelayClient.step fromJson) Guard.free .start inputs trace s → Delivered trace s := by
  intro hall
  have hrun : (Machine.run (RelayClient.step parseEmptyRoster) Guard.free [] .start
      (rosterAndPing true)).map (fun result => (result.2, result.1.waits 0)) =
        some ([.registered 0, .pushed 0 0 emptyRoster, .pinged 0, .complete 0 0], false) := by
    decide
  obtain ⟨⟨s, trace⟩, hrun, hviews⟩ := Option.map_eq_some_iff.mp hrun
  obtain ⟨rfl, hwaits⟩ := Prod.mk.inj hviews
  have hparsed : ∀ msg, .push msg ∈ rosterAndPing true → parseEmptyRoster msg.body = .ok msg := by
    intro msg hmem
    obtain rfl : msg = emptyRoster := by simpa [rosterAndPing] using hmem
    exact if_pos rfl
  have hdelivered := hall parseEmptyRoster _ _ s hparsed (Exec.start.append_run hrun)
  rcases hdelivered.once 0 0 (by simp) with hone | ⟨-, -, -, hwaiting⟩
  · exact absurd hone (by decide)
  · rw [hwaits] at hwaiting
    cases hwaiting

end LocalTrans.Relay
