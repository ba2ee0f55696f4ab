import Mathlib.Data.List.Basic
import Mathlib.Order.Nat

/-!
# Broadcast channels

A value that is sent to a broadcast channel reaches each of its receivers. The channel keeps the
last values, as many as it has slots; a receiver that has fallen behind them goes on with the oldest
one that is kept and is told what it has missed. The channels are those of a library, of which only
what is documented is used.

* `BroadcastLibrary`: the channels and what is known of them.
* `Receiver.Follows`: a receiver has got values that were sent since it subscribed, in their order.
* `Receiver.Follows.got_eq`: it has got all of them up to its position when it has missed none.
* `Broadcast.library`: channels that keep the last values in a list.
-/

/-- What a receiver finds at its position. -/
inductive Received (α : Type)
  | value (v : α)
  /-- The receiver has fallen behind, and goes on at a later position. -/
  | lagged (next : ℕ)
  | empty

/-- A library of broadcast channels. The values that are sent have positions, from 0 on. -/
structure BroadcastLibrary (α : Type) where
  Channel : Type
  /-- A channel with so many slots. -/
  channel : ℕ → Channel
  send : Channel → α → Channel
  /-- The position of the next value that is sent. -/
  tail : Channel → ℕ
  recv : Channel → ℕ → Received α
  /-- The values of the list were sent to the channel. -/
  Carries : Channel → List α → Prop
  /-- Nothing was sent to a new channel. -/
  carries_channel (capacity : ℕ) : Carries (channel capacity) []
  /-- A value is sent behind those that were sent before. -/
  carries_send {c : Channel} {log : List α} (h : Carries c log) (v : α) :
    Carries (send c v) (log ++ [v])
  /-- The next position is behind the values that were sent. -/
  tail_eq {c : Channel} {log : List α} (h : Carries c log) : tail c = log.length
  /-- A receiver gets the value at its position. -/
  getElem?_of_recv {c : Channel} {log : List α} {n : ℕ} {v : α} (h : Carries c log)
    (hv : recv c n = .value v) : log[n]? = some v
  /-- A receiver that has fallen behind goes on with a value that was sent, or waits for one. -/
  bounds_of_lagged {c : Channel} {log : List α} {n next : ℕ} (h : Carries c log)
    (hnext : recv c n = .lagged next) : n ≤ next ∧ next ≤ log.length

/-- A receiver, with the position it subscribed at and the position of the next value. -/
structure Receiver (α : Type) where
  start : ℕ
  next : ℕ
  /-- The values that it has got. -/
  got : List α
  /-- The number of values that it has missed. -/
  missed : ℕ

variable {α : Type} {lib : BroadcastLibrary α}

/-- A new receiver gets the values that are sent from now on. -/
def BroadcastLibrary.subscribe (lib : BroadcastLibrary α) (c : lib.Channel) : Receiver α :=
  ⟨lib.tail c, lib.tail c, [], 0⟩

namespace Receiver

variable {c : lib.Channel} {r : Receiver α} {log : List α}

/-- A receiver takes the next value, if there is one, or is told that it has fallen behind. -/
def recv (lib : BroadcastLibrary α) (c : lib.Channel) (r : Receiver α) : Receiver α :=
  match lib.recv c r.next with
  | .value v => { r with next := r.next + 1, got := r.got ++ [v] }
  | .lagged next => { r with next := next, missed := r.missed + (next - r.next) }
  | .empty => r

@[simp]
theorem recv_start (c : lib.Channel) (r : Receiver α) : (r.recv lib c).start = r.start := by
  unfold recv
  split <;> rfl

/-- What the receiver has got of the values of `log`. -/
structure Follows (r : Receiver α) (log : List α) : Prop where
  start_le : r.start ≤ r.next
  next_le : r.next ≤ log.length
  got : r.got.Sublist ((log.take r.next).drop r.start)
  missed : r.got.length + r.missed = r.next - r.start

theorem Follows.subscribe (h : lib.Carries c log) : (lib.subscribe c).Follows log :=
  ⟨le_rfl, (lib.tail_eq h).le, List.nil_sublist _, (Nat.sub_self _).symm⟩

/-- Values that are sent do not concern what a receiver has got. -/
theorem Follows.append (h : r.Follows log) (more : List α) : r.Follows (log ++ more) := by
  refine ⟨h.start_le, h.next_le.trans (by simp), ?_, h.missed⟩
  rw [List.take_append_of_le_length h.next_le]
  exact h.got

/-- A receiver goes on along the values that were sent. -/
theorem Follows.recv (hc : lib.Carries c log) (h : r.Follows log) :
    (r.recv lib c).Follows log := by
  have hstart := h.start_le
  have hnext := h.next_le
  have hmissed := h.missed
  unfold Receiver.recv
  split
  next v hv =>
    obtain ⟨hlt, hv⟩ := List.getElem?_eq_some_iff.mp (lib.getElem?_of_recv hc hv)
    refine ⟨by show r.start ≤ r.next + 1; omega, hlt, ?_, ?_⟩
    · have htake : (log.take (r.next + 1)).drop r.start =
          (log.take r.next).drop r.start ++ [v] := by
        rw [List.take_add_one, List.getElem?_eq_getElem hlt, hv, Option.toList_some,
          List.drop_append_of_le_length (by rw [List.length_take]; omega)]
      show (r.got ++ [v]).Sublist ((log.take (r.next + 1)).drop r.start)
      rw [htake]
      exact h.got.append (List.Sublist.refl _)
    · show (r.got ++ [v]).length + r.missed = r.next + 1 - r.start
      rw [List.length_append, List.length_singleton]
      omega
  next next hbehind =>
    obtain ⟨hle, hlast⟩ := lib.bounds_of_lagged hc hbehind
    refine ⟨by show r.start ≤ next; omega, hlast, ?_, ?_⟩
    · refine h.got.trans (List.Sublist.drop ?_ _)
      exact (List.take_prefix_take_left hle).sublist
    · show r.got.length + (r.missed + (next - r.next)) = next - r.start
      omega
  next => exact h

/-- A receiver that has missed nothing has got all values up to its position. -/
theorem Follows.got_eq (h : r.Follows log) (hmissed : r.missed = 0) :
    r.got = (log.take r.next).drop r.start := by
  refine h.got.eq_of_length ?_
  have hcount := h.missed
  have hnext := h.next_le
  rw [List.length_drop, List.length_take]
  omega

end Receiver

/-! ## Channels that keep their values in a list -/

/-- A channel with the last values that were sent, and the position of the next one. -/
structure Broadcast (α : Type) where
  capacity : ℕ
  slots : List α
  tail : ℕ

namespace Broadcast

variable (c : Broadcast α) {log : List α}

/-- The position of the oldest value that is kept. -/
def oldest : ℕ := c.tail - c.slots.length

/-- A value takes the slot of the oldest one when there is no other. -/
def send (v : α) : Broadcast α :=
  let slots := c.slots ++ [v]
  { c with slots := slots.drop (slots.length - c.capacity), tail := c.tail + 1 }

/-- What is at a position, or the position of the oldest value that is kept. -/
def recv (n : ℕ) : Received α :=
  if n < c.oldest then .lagged c.oldest
  else (c.slots[n - c.oldest]?).elim .empty .value

/-- The slots hold the last values that were sent. -/
structure Holds (log : List α) : Prop where
  tail : c.tail = log.length
  slots : c.slots = log.drop (log.length - c.capacity)

variable {c}

theorem Holds.send (h : c.Holds log) (v : α) : (c.send v).Holds (log ++ [v]) := by
  refine ⟨by simp [Broadcast.send, h.tail], ?_⟩
  have hslots : c.slots ++ [v] = (log ++ [v]).drop (log.length - c.capacity) := by
    rw [h.slots, List.drop_append_of_le_length (Nat.sub_le _ _)]
  simp only [Broadcast.send, hslots, List.length_drop, List.drop_drop, List.length_append,
    List.length_singleton]
  congr 1
  omega

theorem Holds.oldest (h : c.Holds log) : c.oldest = log.length - c.capacity := by
  rw [Broadcast.oldest, h.tail, h.slots, List.length_drop]
  omega

/-- The slots hold the values under their positions. -/
theorem Holds.getElem?_slots (h : c.Holds log) {n : ℕ} (hn : c.oldest ≤ n) :
    c.slots[n - c.oldest]? = log[n]? := by
  rw [h.oldest] at hn ⊢
  rw [h.slots, List.getElem?_drop, Nat.add_sub_cancel' hn]

theorem Holds.getElem?_of_recv (h : c.Holds log) {n : ℕ} {v : α} (hv : c.recv n = .value v) :
    log[n]? = some v := by
  unfold Broadcast.recv at hv
  split at hv
  next => cases hv
  next hn =>
    rw [h.getElem?_slots (not_lt.mp hn)] at hv
    cases hget : log[n]? with
    | none =>
      rw [hget] at hv
      cases hv
    | some w =>
      rw [hget] at hv
      exact congrArg some (Received.value.inj hv)

theorem Holds.bounds_of_lagged (h : c.Holds log) {n next : ℕ} (hnext : c.recv n = .lagged next) :
    n ≤ next ∧ next ≤ log.length := by
  unfold Broadcast.recv at hnext
  split at hnext
  next hn =>
    obtain rfl := Received.lagged.inj hnext
    exact ⟨hn.le, h.oldest ▸ Nat.sub_le _ _⟩
  next =>
    cases hget : c.slots[n - c.oldest]? <;> rw [hget] at hnext <;> cases hnext

/-- The library of these channels. -/
def library (α : Type) : BroadcastLibrary α where
  Channel := Broadcast α
  channel capacity := ⟨capacity, [], 0⟩
  send := Broadcast.send
  tail := Broadcast.tail
  recv := Broadcast.recv
  Carries := Broadcast.Holds
  carries_channel _ := ⟨rfl, List.drop_nil.symm⟩
  carries_send := Holds.send
  tail_eq := Holds.tail
  getElem?_of_recv h := h.getElem?_of_recv
  bounds_of_lagged h := h.bounds_of_lagged

end Broadcast
