import Mathlib.Data.List.Basic
import Mathlib.Tactic.Common

/-!
# Broadcast channels

A channel that hands every message to every receiver. The channel is the list of all
messages sent so far; a receiver is the number of the message it reads next, so a new one
starts at the end and sees only what is sent after it. The channel keeps a bounded number of
messages: a receiver that falls further behind learns how much it missed and goes on with
the oldest message that is kept.
-/

namespace Broadcast

/-- A channel with all it was ever given, oldest first. -/
structure Chan (α : Type) where
  /-- how many messages are kept for slow receivers -/
  capacity : Nat
  log : List α

/-- What a receiver gets. -/
inductive Recv (α : Type) where
  /-- nothing yet -/
  | empty
  /-- messages were missed; the receiver goes on at this number -/
  | lagged (next : Nat)
  | got (msg : α)

namespace Chan

variable {α : Type}

/-- A channel nothing was sent on. -/
def new (capacity : Nat) : Chan α := ⟨capacity, []⟩

/-- The number of the next message. -/
def tail (c : Chan α) : Nat := c.log.length

/-- The message is the newest one. -/
def send (c : Chan α) (m : α) : Chan α := { c with log := c.log ++ [m] }

/-- A new receiver. -/
def subscribe (c : Chan α) : Nat := c.tail

/-- The receiver has fallen behind what is kept. -/
def Lags (c : Chan α) (pos : Nat) : Prop := c.capacity < c.tail - pos

instance (c : Chan α) (pos : Nat) : Decidable (c.Lags pos) :=
  inferInstanceAs (Decidable (_ < _))

/-- What a receiver gets next: one that lags is told by how much it has to catch up. -/
def recv (c : Chan α) (pos : Nat) : Recv α :=
  if c.Lags pos then .lagged (c.tail - c.capacity)
  else
    match c.log[pos]? with
    | none => .empty
    | some m => .got m

variable {c : Chan α} {m : α} {pos : Nat}

@[simp] theorem tail_new (capacity : Nat) : (new capacity : Chan α).tail = 0 := rfl

@[simp] theorem tail_send : (c.send m).tail = c.tail + 1 := by
  rw [tail, send, List.length_append, List.length_singleton, tail]

@[simp] theorem capacity_send : (c.send m).capacity = c.capacity := rfl

/-- A new receiver reads the next message that is sent. -/
theorem getElem?_send_tail : (c.send m).log[c.tail]? = some m := List.getElem?_concat_length ..

/-- Messages that were sent stay where they are. -/
theorem getElem?_send {i : Nat} (h : c.log[i]? = some m) (m' : α) :
    (c.send m').log[i]? = some m := by
  obtain ⟨hi, -⟩ := List.getElem?_eq_some_iff.mp h
  rw [send, List.getElem?_append_left hi, h]

/-- A receiver that lags gets the number of messages it has missed. -/
theorem recv_of_lags (h : c.Lags pos) : c.recv pos = .lagged (c.tail - c.capacity) := if_pos h

/-- A receiver that keeps up finds the message it waits for. -/
theorem recv_of_lt (h : ¬ c.Lags pos) (hlt : pos < c.tail) :
    ∃ m, c.log[pos]? = some m ∧ c.recv pos = .got m := by
  have hm := List.getElem?_eq_getElem hlt
  exact ⟨_, hm, by rw [recv, if_neg h, hm]⟩

/-- A receiver at the end waits. -/
theorem recv_of_tail_le (hlt : c.tail ≤ pos) : c.recv pos = .empty := by
  have hlag : ¬ c.Lags pos := by
    rw [Lags]
    omega
  rw [recv, if_neg hlag, List.getElem?_eq_none hlt]

/-- What is received is the message of that number. -/
theorem getElem?_of_recv (h : c.recv pos = .got m) : c.log[pos]? = some m := by
  rw [recv] at h
  split_ifs at h
  rcases hm : c.log[pos]? with _ | m' <;> rw [hm] at h <;> cases h
  rfl

theorem lt_tail_of_recv (h : c.recv pos = .got m) : pos < c.tail :=
  (List.getElem?_eq_some_iff.mp (getElem?_of_recv h)).1

end Chan

end Broadcast
