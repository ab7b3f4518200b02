import Mathlib.Data.List.Basic

/-!
# A bounded channel (`std::sync::mpsc::sync_channel`, with room for at least one value)

`try_send` puts a value at the end, or finds the channel full. `recv` takes the first value; it waits
on an empty channel, and fails on one that is empty and whose sender is gone. `Fifo` says what has
become of the values let in.
-/

namespace Rust
variable {α : Type}

structure Channel (α : Type) where
  capacity : Nat
  queue : List α := []
  /-- The sender is gone. -/
  closed : Bool := false

namespace Channel

def full (c : Channel α) : Bool := decide (c.capacity ≤ c.queue.length)

def trySend (c : Channel α) (x : α) : Channel α := if c.full then c else { c with queue := c.queue ++ [x] }

def close (c : Channel α) : Channel α := { c with closed := true }

/-- The answer, and the channel after it; none while `recv` waits. -/
def recv (c : Channel α) : Option (Option α × Channel α) :=
  match c.queue with
  | x :: rest => some (some x, { c with queue := rest })
  | [] => if c.closed then some (none, c) else none

variable {c u : Channel α}

theorem recv_of_queue {x : α} {rest : List α} (h : c.queue = x :: rest) :
    c.recv = some (some x, { c with queue := rest }) := by
  unfold recv
  rw [h]

theorem recv_of_closed (hqueue : c.queue = []) (hclosed : c.closed = true) : c.recv = some (none, c) := by
  unfold recv
  rw [hqueue]
  exact if_pos hclosed

theorem recv_of_open (hqueue : c.queue = []) (hopen : c.closed = false) : c.recv = none := by
  unfold recv
  rw [hqueue]
  exact if_neg (by simp [hopen])

theorem recv_cases {result : Option α} (h : c.recv = some (result, u)) :
    (∃ x rest, result = some x ∧ c.queue = x :: rest ∧ u = { c with queue := rest }) ∨
      result = none ∧ c.queue = [] ∧ c.closed = true ∧ u = c := by
  cases hqueue : c.queue with
  | cons x rest =>
    rw [recv_of_queue hqueue] at h
    cases h
    exact Or.inl ⟨x, rest, rfl, rfl, rfl⟩
  | nil =>
    cases hclosed : c.closed with
    | false => rw [recv_of_open hqueue hclosed] at h; cases h
    | true =>
      rw [recv_of_closed hqueue hclosed] at h
      cases h
      exact Or.inr ⟨rfl, rfl, rfl, rfl⟩

@[simp] theorem trySend_closed (x : α) : (c.trySend x).closed = c.closed := by
  unfold trySend
  split <;> rfl

theorem trySend_of_full {x : α} (h : c.full = true) : c.trySend x = c := if_pos h

theorem trySend_of_room {x : α} (h : c.full = false) : c.trySend x = { c with queue := c.queue ++ [x] } := by
  unfold trySend
  rw [if_neg (by simp [h])]

/-- **First in, first out**, and never more than there is room for. -/
structure Fifo (capacity : Nat) (sent received : List α) (c : Channel α) : Prop where
  size : c.capacity = capacity
  order : sent = received ++ c.queue
  room : c.queue.length ≤ capacity

variable {capacity : Nat} {sent received : List α}

theorem Fifo.empty (capacity : Nat) : Fifo capacity ([] : List α) [] { capacity } := ⟨rfl, rfl, Nat.zero_le _⟩

theorem Fifo.refuse (h : Fifo capacity sent received c) {x : α} (hfull : c.full = true) :
    Fifo capacity sent received (c.trySend x) := by
  rw [trySend_of_full hfull]
  exact h

theorem Fifo.send (h : Fifo capacity sent received c) {x : α} (hroom : c.full = false) :
    Fifo capacity (sent ++ [x]) received (c.trySend x) := by
  rw [trySend_of_room hroom]
  refine ⟨h.size, by rw [h.order, List.append_assoc], ?_⟩
  have hlength : c.queue.length < c.capacity := by simpa [full] using hroom
  have hcapacity := h.size
  rw [List.length_append, List.length_singleton]
  omega

theorem Fifo.close (h : Fifo capacity sent received c) : Fifo capacity sent received c.close :=
  ⟨h.size, h.order, h.room⟩

theorem Fifo.recv (h : Fifo capacity sent received c) {x : α} (hrecv : c.recv = some (some x, u)) :
    Fifo capacity sent (received ++ [x]) u := by
  rcases recv_cases hrecv with ⟨y, rest, hx, hqueue, rfl⟩ | ⟨hnone, -⟩
  · cases hx
    have hroom := h.room
    rw [hqueue, List.length_cons] at hroom
    exact ⟨h.size, by rw [h.order, hqueue, List.append_assoc, List.singleton_append], Nat.le_of_succ_le hroom⟩
  · cases hnone

end Channel

end Rust
