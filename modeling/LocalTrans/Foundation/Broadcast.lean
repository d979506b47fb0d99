import Mathlib.Algebra.Order.Ring.Nat

/-!
# A bounded broadcast channel that loses messages

Every subscriber of the channel reads every message that is sent after it subscribed, in order,
unless more than `capacity` messages are sent before it reads: the oldest are overwritten then,
and the subscriber is told that it lagged. The state keeps the whole log, and a subscriber is a
position in it. `Intact p` says that the messages that meet `p` are all still there for a
subscriber; the rules below carry it through sends and receives, up to `intact_message`: the
first such message it reads is the first that was ever sent.
-/

namespace Foundation

/-- A broadcast channel: how many messages it retains, and all that were ever sent. -/
structure Broadcast (α : Type*) where
  capacity : Nat
  log : List α

namespace Broadcast

variable {α : Type*}

/-- What a subscriber receives. -/
inductive Received (α : Type*) where
  | empty
  | lagged (missed : Nat)
  | message (value : α)

/-- Send a message to all subscribers. -/
def send (channel : Broadcast α) (value : α) : Broadcast α :=
  { channel with log := channel.log ++ [value] }

/-- The position of a new subscriber: it sees what is sent from now on. -/
def subscribe (channel : Broadcast α) : Nat :=
  channel.log.length

/-- Receive: a subscriber whose next message is overwritten skips to the oldest that is not. -/
def recv (channel : Broadcast α) (position : Nat) : Received α × Nat :=
  let oldest := channel.log.length - channel.capacity
  if position < oldest then (.lagged (oldest - position), oldest)
  else
    match channel.log[position]? with
    | some value => (.message value, position + 1)
    | none => (.empty, position)

/-- The messages sent since the subscriber read last. -/
def unread (channel : Broadcast α) (position : Nat) : List α :=
  channel.log.drop position

/-- The unread messages that are overwritten. -/
def lost (channel : Broadcast α) (position : Nat) : List α :=
  (channel.unread position).take ((channel.unread position).length - channel.capacity)

/-- The unread messages that are still there. -/
def retained (channel : Broadcast α) (position : Nat) : List α :=
  (channel.unread position).drop ((channel.unread position).length - channel.capacity)

/-- The messages that meet `p` and were sent from `since` on are all still to be read. -/
structure Intact (p : α → Bool) (channel : Broadcast α) (since position : Nat) : Prop where
  unread_all : (channel.unread position).filter p = (channel.log.drop since).filter p
  none_lost : ∀ value ∈ channel.lost position, p value = false

variable {channel : Broadcast α} {since position : Nat} {value : α} {p : α → Bool}

/-- A new subscriber has nothing to read. -/
@[simp] theorem unread_subscribe : channel.unread channel.subscribe = [] := by
  simp [unread, subscribe]

@[simp] theorem retained_subscribe : channel.retained channel.subscribe = [] := by
  simp [retained]

@[simp] theorem lost_subscribe : channel.lost channel.subscribe = [] := by
  simp [lost]

/-- What is sent is unread. -/
theorem unread_send (h : position ≤ channel.log.length) :
    (channel.send value).unread position = channel.unread position ++ [value] := by
  simp [unread, send, List.drop_append_of_le_length h]

/-- How many messages are unread. -/
theorem length_unread : (channel.unread position).length = channel.log.length - position := by
  simp [unread]

/-- The unread messages are the overwritten ones and then those that are still there. -/
theorem lost_append_retained :
    channel.lost position ++ channel.retained position = channel.unread position :=
  List.take_append_drop _ _

/-- A subscriber that does not lag has lost nothing. -/
theorem lost_eq_nil (h : channel.log.length - channel.capacity ≤ position) :
    channel.lost position = [] := by
  have hlength : (channel.unread position).length - channel.capacity = 0 := by
    rw [length_unread]
    omega
  rw [lost, hlength, List.take_zero]

/-- The three outcomes of a receive: nothing is unread; the oldest unread message, with nothing
lost; or a lag, past exactly the lost messages. -/
theorem recv_cases (channel : Broadcast α) (position : Nat) :
    (channel.recv position = (.empty, position) ∧ channel.unread position = []) ∨
    (∃ value, channel.recv position = (.message value, position + 1) ∧
      channel.unread position = value :: channel.unread (position + 1) ∧
      position < channel.log.length ∧ channel.lost position = [] ∧
      channel.lost (position + 1) = []) ∨
    ∃ missed later, channel.recv position = (.lagged missed, later) ∧
      position < later ∧ later ≤ channel.log.length ∧ channel.lost later = [] ∧
      channel.unread later = channel.retained position := by
  unfold recv
  dsimp only
  split
  · next hlag =>
    refine .inr (.inr ⟨_, _, rfl, hlag, Nat.sub_le _ _,
      lost_eq_nil (Nat.le_refl _), ?_⟩)
    have hoffset : (channel.unread position).length - channel.capacity =
        channel.log.length - channel.capacity - position := by
      rw [length_unread]
      omega
    rw [retained, hoffset, unread, unread, List.drop_drop]
    congr 1
    omega
  · next hnolag =>
    cases hvalue : channel.log[position]? with
    | none => exact .inl ⟨rfl, List.drop_eq_nil_of_le (List.getElem?_eq_none_iff.mp hvalue)⟩
    | some value =>
      obtain ⟨hlt, hget⟩ := List.getElem?_eq_some_iff.mp hvalue
      refine .inr (.inl ⟨value, rfl, ?_, hlt, lost_eq_nil (by omega), lost_eq_nil (by omega)⟩)
      rw [unread, List.drop_eq_getElem_cons hlt, hget, unread]

/-- Where nothing is lost, everything unread is still there. -/
theorem retained_eq_unread (h : channel.lost position = []) :
    channel.retained position = channel.unread position := by
  rw [← lost_append_retained, h, List.nil_append]

/-- What is still there for a subscriber after a receive, apart from the message it got. -/
theorem retained_recv (channel : Broadcast α) (position : Nat) :
    (∃ value, (channel.recv position).1 = .message value ∧
      channel.retained position = value :: channel.retained (channel.recv position).2) ∨
    ((∀ value, (channel.recv position).1 ≠ .message value) ∧
      channel.retained (channel.recv position).2 = channel.retained position) := by
  rcases recv_cases channel position with ⟨hrecv, -⟩ | ⟨first, hrecv, hunread, -, hnone, hlater⟩ |
    ⟨missed, later, hrecv, -, -, hnone, hunread⟩
  · rw [hrecv]
    exact .inr ⟨by simp, rfl⟩
  · rw [hrecv]
    refine .inl ⟨first, rfl, ?_⟩
    rw [retained_eq_unread hnone, retained_eq_unread hlater, hunread]
  · rw [hrecv]
    exact .inr ⟨by simp, by rw [retained_eq_unread hnone, hunread]⟩

/-- The first message that meets `p` of those that are still there is not skipped. -/
theorem find_retained_recv (h : ∀ value, (channel.recv position).1 = .message value →
      p value = false) :
    (channel.retained (channel.recv position).2).find? p = (channel.retained position).find? p := by
  rcases retained_recv channel position with ⟨value, hrecv, hretained⟩ | ⟨-, hretained⟩
  · rw [hretained, List.find?_cons_of_neg (by simp [h value hrecv])]
  · rw [hretained]

/-- It is the message that is received. -/
theorem find_retained_message (hrecv : (channel.recv position).1 = .message value)
    (hp : p value = true) : (channel.retained position).find? p = some value := by
  rcases retained_recv channel position with ⟨found, hfound, hretained⟩ | ⟨hnone, -⟩
  · rw [hfound] at hrecv
    cases hrecv
    rw [hretained, List.find?_cons_of_pos hp]
  · exact absurd hrecv (hnone value)

/-- What is received was sent. -/
theorem mem_log_of_recv (hrecv : (channel.recv position).1 = .message value) :
    value ∈ channel.log := by
  have hfind : (channel.retained position).find? (fun _ => true) = some value :=
    find_retained_message hrecv rfl
  exact List.mem_of_mem_drop (List.mem_of_mem_drop (List.mem_of_find?_eq_some hfind))

/-- A position never runs ahead of the log. -/
theorem recv_le (h : position ≤ channel.log.length) :
    (channel.recv position).2 ≤ channel.log.length := by
  rcases recv_cases channel position with ⟨hrecv, -⟩ | ⟨first, hrecv, -, hlt, -⟩ |
    ⟨missed, later, hrecv, -, hle, -⟩
  · rwa [hrecv]
  · rw [hrecv]
    exact hlt
  · rwa [hrecv]

/-- A receive makes progress as long as something is unread. -/
theorem recv_progress (h : channel.unread position ≠ []) :
    position < (channel.recv position).2 ∧ (channel.recv position).2 ≤ channel.log.length := by
  rcases recv_cases channel position with ⟨-, hunread⟩ | ⟨first, hrecv, -, hlt, -⟩ |
    ⟨missed, later, hrecv, hgt, hle, -⟩
  · exact absurd hunread h
  · rw [hrecv]
    exact ⟨Nat.lt_succ_self _, hlt⟩
  · rw [hrecv]
    exact ⟨hgt, hle⟩

/-- A subscriber that comes before the first such message misses none. -/
theorem intact_subscribe (h : (channel.log.drop since).filter p = []) :
    Intact p channel since channel.subscribe where
  unread_all := by rw [unread_subscribe, h, List.filter_nil]
  none_lost _ hmem := by simp at hmem

/-- A send keeps the messages there, if it overwrites none of them. -/
theorem Intact.send (h : Intact p channel since position) (hle : position ≤ channel.log.length)
    (hsince : since ≤ channel.log.length)
    (hlost : ∀ found ∈ (channel.send value).lost position, p found = false) :
    Intact p (channel.send value) since position where
  unread_all := by
    rw [unread_send hle, List.filter_append, h.unread_all]
    simp [Broadcast.send, List.drop_append_of_le_length hsince]
  none_lost := hlost

/-- A subscriber with nothing to read was sent no such message. -/
theorem Intact.empty (h : Intact p channel since position)
    (hunread : channel.unread position = []) : (channel.log.drop since).filter p = [] := by
  rw [← h.unread_all, hunread, List.filter_nil]

/-- A receive that finds no such message keeps them there. -/
theorem Intact.recv (h : Intact p channel since position)
    (hother : ∀ value, (channel.recv position).1 = .message value → p value = false) :
    Intact p channel since (channel.recv position).2 := by
  rcases recv_cases channel position with ⟨hrecv, -⟩ | ⟨first, hrecv, hunread, -, -, hlater⟩ |
    ⟨missed, later, hrecv, -, -, hnone, hunread⟩
  · rwa [hrecv]
  · rw [hrecv] at hother ⊢
    refine ⟨?_, by simp [hlater]⟩
    have hskip : ¬ p first = true := by simp [hother first rfl]
    rw [← h.unread_all, hunread, List.filter_cons_of_neg hskip]
  · rw [hrecv]
    refine ⟨?_, by simp [hnone]⟩
    have hskipped : (channel.lost position).filter p = [] := by
      rw [List.filter_eq_nil_iff]
      intro found hmem
      simp [h.none_lost found hmem]
    rw [← h.unread_all, hunread, ← lost_append_retained, List.filter_append, hskipped,
      List.nil_append]

/-- The first such message that is received is the first that was sent. -/
theorem Intact.first (h : Intact p channel since position)
    (hrecv : (channel.recv position).1 = .message value) (hp : p value = true) :
    ((channel.log.drop since).filter p).head? = some value := by
  rcases recv_cases channel position with ⟨hempty, -⟩ | ⟨first, hmessage, hunread, -⟩ |
    ⟨_, _, hlag, -⟩
  · rw [hempty] at hrecv
    cases hrecv
  · rw [hmessage] at hrecv
    cases hrecv
    rw [← h.unread_all, hunread, List.filter_cons_of_pos hp, List.head?_cons]
  · rw [hlag] at hrecv
    cases hrecv

end Broadcast

end Foundation
