import Mathlib.Algebra.Order.Ring.Nat

/-!
# Decoding a stream that arrives in pieces

A decoder looks at the front of a buffer and finds an item, too little data, or data it cannot
read. What it finds may not change when more data arrives. `drain` takes items until none is left,
and `feed` extends the buffer with each received piece and drains it. `feed_eq_drain` says that
it does not matter how the data is cut into pieces.
-/

namespace Foundation

variable {α β : Type*}

/-- What is at the front of a buffer. -/
inductive Front (α β : Type*) where
  | incomplete
  | item (value : α) (rest : List β)
  | broken
deriving DecidableEq

/-- A decoder of items. Later data does not change what was found. -/
structure Decoder (α β : Type*) where
  take : List β → Front α β
  shorter : ∀ buffer value rest, take buffer = .item value rest → rest.length < buffer.length
  stable : ∀ buffer value rest more, take buffer = .item value rest →
    take (buffer ++ more) = .item value (rest ++ more)
  stuck : ∀ buffer more, take buffer = .broken → take (buffer ++ more) = .broken

namespace Decoder

variable (decoder : Decoder α β)

/-- Take items while there are any, at most `fuel` of them. What is left is `none` if the data
cannot be read. -/
def drainUpTo : Nat → List β → List α × Option (List β)
  | 0, buffer => ([], some buffer)
  | fuel + 1, buffer =>
    match decoder.take buffer with
    | .incomplete => ([], some buffer)
    | .broken => ([], none)
    | .item value rest =>
      let (values, left) := drainUpTo fuel rest
      (value :: values, left)

/-- Take all items from the front of a buffer. -/
def drain (buffer : List β) : List α × Option (List β) :=
  decoder.drainUpTo (buffer.length + 1) buffer

/-- Receive pieces one after another, and drain the buffer after each. -/
def feed (buffer : List β) : List (List β) → List α × Option (List β)
  | [] => ([], some buffer)
  | piece :: pieces =>
    match decoder.drain (buffer ++ piece) with
    | (values, none) => (values, none)
    | (values, some left) =>
      let (more, last) := feed left pieces
      (values ++ more, last)

variable {decoder} {buffer left more rest : List β} {value : α} {values : List α}

/-- Two amounts of fuel that are both more than the data give the same. -/
theorem drainUpTo_congr {fuel other : Nat} (hfuel : buffer.length < fuel)
    (hother : buffer.length < other) :
    decoder.drainUpTo fuel buffer = decoder.drainUpTo other buffer := by
  induction fuel generalizing other buffer with
  | zero => omega
  | succ fuel ih =>
    cases other with
    | zero => omega
    | succ other =>
      simp only [drainUpTo]
      split
      · rfl
      · rfl
      · next value rest htake =>
        have hlt := decoder.shorter _ _ _ htake
        have hsame : decoder.drainUpTo fuel rest = decoder.drainUpTo other rest :=
          ih (by omega) (by omega)
        rw [hsame]

/-- An incomplete item stays in the buffer. -/
theorem drain_of_incomplete (h : decoder.take buffer = .incomplete) :
    decoder.drain buffer = ([], some buffer) := by
  simp [drain, drainUpTo, h]

/-- Data that cannot be read ends the draining. -/
theorem drain_of_broken (h : decoder.take buffer = .broken) : decoder.drain buffer = ([], none) := by
  simp [drain, drainUpTo, h]

/-- An item is taken, and the rest drained. -/
theorem drain_of_item (h : decoder.take buffer = .item value rest) :
    decoder.drain buffer = (value :: (decoder.drain rest).1, (decoder.drain rest).2) := by
  have hlt := decoder.shorter _ _ _ h
  rw [drain, drainUpTo, h]
  dsimp only
  rw [drainUpTo_congr hlt (Nat.lt_succ_self _), drain]

/-- Draining by the length of the buffer: nothing, an error, or an item and the rest. -/
theorem drain_induction {P : List β → Prop}
    (incomplete : ∀ buffer, decoder.take buffer = .incomplete → P buffer)
    (broken : ∀ buffer, decoder.take buffer = .broken → P buffer)
    (item : ∀ buffer value rest, decoder.take buffer = .item value rest → P rest → P buffer)
    (buffer : List β) : P buffer := by
  induction hlength : buffer.length using Nat.strongRecOn generalizing buffer with
  | ind length ih =>
    cases htake : decoder.take buffer with
    | incomplete => exact incomplete buffer htake
    | broken => exact broken buffer htake
    | item value rest =>
      have hlt := decoder.shorter _ _ _ htake
      exact item buffer value rest htake (ih rest.length (by omega) rest rfl)

/-- What is left after draining is incomplete. -/
theorem take_of_drain (h : decoder.drain buffer = (values, some left)) :
    decoder.take left = .incomplete := by
  induction buffer using decoder.drain_induction generalizing values with
  | incomplete buffer htake =>
    rw [drain_of_incomplete htake] at h
    cases h
    exact htake
  | broken buffer htake =>
    rw [drain_of_broken htake] at h
    cases h
  | item buffer value rest htake ih =>
    rw [drain_of_item htake] at h
    have hleft : (decoder.drain rest).2 = some left := congrArg Prod.snd h
    exact ih (Prod.ext rfl hleft)

/-- Data that arrives later is drained after what was there. -/
theorem drain_append (buffer more : List β) :
    decoder.drain (buffer ++ more) =
      match decoder.drain buffer with
      | (values, none) => (values, none)
      | (values, some left) =>
        (values ++ (decoder.drain (left ++ more)).1, (decoder.drain (left ++ more)).2) := by
  induction buffer using decoder.drain_induction with
  | incomplete buffer htake => simp [drain_of_incomplete htake]
  | broken buffer htake =>
    rw [drain_of_broken htake, drain_of_broken (decoder.stuck _ _ htake)]
  | item buffer value rest htake ih =>
    rw [drain_of_item htake, drain_of_item (decoder.stable _ _ _ _ htake), ih]
    rcases decoder.drain rest with ⟨values, left⟩
    cases left <;> rfl

/-- However the data is cut into pieces, it is decoded as one. -/
theorem feed_eq_drain (pieces : List (List β)) (h : decoder.take buffer = .incomplete) :
    decoder.feed buffer pieces = decoder.drain (buffer ++ pieces.flatten) := by
  induction pieces generalizing buffer with
  | nil => simp [feed, drain_of_incomplete h]
  | cons piece pieces ih =>
    rw [feed, List.flatten_cons, ← List.append_assoc, drain_append (buffer ++ piece)]
    rcases hdrain : decoder.drain (buffer ++ piece) with ⟨values, left⟩
    cases left with
    | none => rfl
    | some left =>
      dsimp only
      rw [ih (take_of_drain hdrain)]

end Decoder

end Foundation
