import DkimLite.DaemonConnections
import DkimLite.Limits

/-!
# What the clients can make a daemon hold

`Limits.lean` bounds what one connection holds. Here all of them are counted together: only what a worker
has in hand has begun a message, and only twice as many wait as there are workers (`daemon_bounded`).
With the 32 workers at most that `run_daemon` asks for, that is 96 connections, and 32 MiB of fields.
-/

namespace DkimLite
open Rust

section
variable {ι Key : Type} [DecidableEq ι] {n : Nat} {listener : Listener} {debugStr : List Char → String} {path : Bytes}
  {ssl : OpenSsl Key} {keys : KeyFormat Key} {initial : RuntimeConfig Key} {files : Files} {d : Daemon ι Key n}
  {es : List (DaemonEvent ι Key n)}

/-! ## Open connections -/

/-- The pool has let `c` in, and is not done with it. -/
structure IsOpen (es : List (PoolEvent ι n)) (c : ι) : Prop where
  entered : c ∈ es.filterMap PoolEvent.entered?
  handled : c ∉ es.filterMap PoolEvent.handled?
  lost : c ∉ es.filterMap PoolEvent.lost?
  dropped : c ∉ es.filterMap PoolEvent.dropped?

/-- The fields that a connection holds for its message. -/
def heldFields : Outcome String Bytes (Flow (Conn Key) Unit) → List Header
  | .ok (.again conn) _ => conn.state.headers
  | _ => []

/-- Nothing is held for a connection that is over. -/
theorem heldFields_over {h : List (Event Key)} (hover : after h = none) : heldFields (runOf h) = [] := by
  unfold after at hover
  cases hrun : runOf h with
  | ok flow out =>
    cases flow with
    | again conn =>
      rw [hrun] at hover
      cases hover
    | done _ => rfl
  | err _ _ => rfl
  | panic => rfl
  | pending _ => rfl

/-- It waits, or a worker has it in hand. -/
theorem IsOpen.somewhere {pool : Pool ι n} {ps : List (PoolEvent ι n)} {c : ι} (h : IsOpen ps c) (htally : Tally ps pool) :
    1 ≤ pool.channel.queue.count c + total (WorkerPoint.holds c) pool.workers := by
  have hentered := List.one_le_count_iff.2 h.entered
  have hreceived := htally.hand c
  rw [List.count_eq_zero.2 h.handled, List.count_eq_zero.2 h.lost, List.count_eq_zero.2 h.dropped] at hreceived
  rw [htally.fifo.order, List.count_append] at hentered
  omega

theorem sum_holds_le (C : Finset ι) (w : WorkerPoint ι) : ∑ c ∈ C, w.holds c ≤ 1 := by
  cases w with
  | received c | handling c =>
    simp only [WorkerPoint.holds, Finset.sum_ite_eq]
    split <;> omega
  | _ => simp [WorkerPoint.holds]

/-- **The open connections** are no more than the workers and the places in the queue. -/
theorem open_bounded {pool : Pool ι n} {ps : List (PoolEvent ι n)} (htally : Tally ps pool) (C : Finset ι)
    (hopen : ∀ c ∈ C, IsOpen ps c) : C.card ≤ 3 * n := by
  have hwaiting := sum_count_le C pool.channel.queue
  have hhands := sum_total_le C (f := WorkerPoint.holds) fun i => sum_holds_le C (pool.workers i)
  have hroom := htally.fifo.room
  calc C.card = ∑ _c ∈ C, 1 := by simp
    _ ≤ ∑ c ∈ C, (pool.channel.queue.count c + total (WorkerPoint.holds c) pool.workers) :=
      Finset.sum_le_sum fun c hc => (hopen c hc).somewhere htally
    _ ≤ 3 * n := by
      rw [Finset.sum_add_distrib]
      omega

/-- What each connection holds `b` of at most, and only in the hand of a worker, is `b` for each worker at most. -/
theorem sum_le_hands {pool : Pool ι n} (C : Finset ι) {f : ι → Nat} {b : Nat}
    (h : ∀ c ∈ C, f c ≤ b * total (WorkerPoint.holds c) pool.workers) : ∑ c ∈ C, f c ≤ b * n := by
  have hhands := sum_total_le C (f := WorkerPoint.holds) fun i => sum_holds_le C (pool.workers i)
  rw [Nat.mul_one] at hhands
  calc ∑ c ∈ C, f c ≤ ∑ c ∈ C, b * total (WorkerPoint.holds c) pool.workers := Finset.sum_le_sum h
    _ = b * ∑ c ∈ C, total (WorkerPoint.holds c) pool.workers := (Finset.mul_sum ..).symm
    _ ≤ b * n := Nat.mul_le_mul_left _ hhands

/-! ## Messages -/

theorem heldFields_bounded {h : List (Event Key)} (hssl : Documented h) :
    (heldFields (runOf h)).length ≤ maxHeaders ∧ bytesOf (heldFields (runOf h)) ≤ maxHeaderBytes := by
  cases hafter : after h with
  | none =>
    rw [heldFields_over hafter]
    exact ⟨Nat.zero_le _, Nat.zero_le _⟩
  | some conn =>
    rw [runOf_of_after hafter]
    have hbounded := run_bounded hssl hafter
    exact ⟨hbounded.count, hbounded.bytes⟩

/-- An open connection that has sent a packet is in the hand of a worker. -/
theorem IsOpen.in_hand {c : ι} {i : Fin n} (hopen : IsOpen (es.filterMap DaemonEvent.pool?) c)
    (hrun : runs (Daemon.step listener debugStr path ssl keys) (Daemon.start initial files) es = some d)
    (hi : PacketOn es i c) : 1 ≤ total (WorkerPoint.holds c) d.pool.workers := by
  rcases (oneWorker_run hrun c).hand i hi with hw | hover
  · have hhand := le_total (WorkerPoint.holds c) d.pool.workers i
    rw [hw, WorkerPoint.holds, if_pos rfl] at hhand
    exact hhand
  · rw [List.count_eq_zero.2 hopen.handled, List.count_eq_zero.2 hopen.lost] at hover
    omega

/-- What is held for an open connection is in the hand of a worker. -/
theorem held_le {c : ι} (hrun : runs (Daemon.step listener debugStr path ssl keys) (Daemon.start initial files) es = some d)
    (hssl : DocumentedPackets es) (hopen : IsOpen (es.filterMap DaemonEvent.pool?) c) :
    (heldFields (d.conns c)).length ≤ maxHeaders * total (WorkerPoint.holds c) d.pool.workers ∧
      bytesOf (heldFields (d.conns c)) ≤ maxHeaderBytes * total (WorkerPoint.holds c) d.pool.workers := by
  obtain ⟨h, hconn, hheard⟩ := heard_run hrun c
  rw [hconn]
  cases h with
  | nil => exact ⟨Nat.zero_le _, Nat.zero_le _⟩
  | cons e h =>
    have hsent : ∃ i, PacketOn es i c := by
      obtain ⟨es₁, i, es₂, t, rfl, -⟩ := hheard.moments [] e h rfl
      exact ⟨i, e.moment.env, e.packet, by simp⟩
    obtain ⟨i, hi⟩ := hsent
    have hhand := hopen.in_hand hrun hi
    obtain ⟨hcount, hbytes⟩ := heldFields_bounded (hheard.documented hssl)
    exact ⟨hcount.trans (Nat.le_mul_of_pos_right _ hhand), hbytes.trans (Nat.le_mul_of_pos_right _ hhand)⟩

/-- **What the clients can make a daemon hold** is bounded: at any moment of any run, the connections that it
has not finished, and the fields of their messages all together. -/
theorem daemon_bounded {parallelism : Option Nat} {d : Daemon ι Key (workers parallelism)}
    {es : List (DaemonEvent ι Key (workers parallelism))}
    (hrun : runs (Daemon.step listener debugStr path ssl keys) (Daemon.start initial files) es = some d)
    (hssl : DocumentedPackets es) (C : Finset ι) (hopen : ∀ c ∈ C, IsOpen (es.filterMap DaemonEvent.pool?) c) :
    C.card ≤ 96 ∧ ∑ c ∈ C, (heldFields (d.conns c)).length ≤ 32000 ∧
      ∑ c ∈ C, bytesOf (heldFields (d.conns c)) ≤ 32 * 1024 * 1024 := by
  have hworkers : workers parallelism ≤ 32 := by
    unfold workers
    omega
  have hcard := open_bounded (tally_run (daemon_pool hrun)) C hopen
  have hcount := sum_le_hands C fun c hc => (held_le hrun hssl (hopen c hc)).1
  have hbytes := sum_le_hands C fun c hc => (held_le hrun hssl (hopen c hc)).2
  unfold maxHeaders at hcount
  unfold maxHeaderBytes at hbytes
  omega

end

/-- The first of two workers. -/
def exampleWorker : Fin (workers (some 1)) := ⟨0, by decide⟩

/-- One connection has sent a field, and one waits. -/
def exampleHolding : List (DaemonEvent Nat Unit (workers (some 1))) :=
  [.pool (.load false), .pool (.waitReadable (.ok true)), .pool (.load false), .pool (.load false),
    .pool (.arrive 7 (exampleArrival false)), .pool (.worker exampleWorker .lock),
    .pool (.worker exampleWorker (.recv (some 7))), .pool (.worker exampleWorker (.load 7 false)),
    .packet exampleWorker 7 exampleEnv [byte 'M'], .packet exampleWorker 7 exampleEnv (byte 'L' :: exampleFrom.wire),
    .pool (.waitReadable (.ok true)), .pool (.load false), .pool (.arrive 8 (exampleArrival false))]

theorem daemon_bounded_example : ∃ d : Daemon Nat Unit (workers (some 1)), heldFields (d.conns 7) = [exampleFrom] ∧
    d.pool.channel.queue = [8] ∧ ∑ c ∈ {7, 8}, bytesOf (heldFields (d.conns c)) ≤ 32 * 1024 * 1024 := by
  have hopen : ∀ c ∈ ({7, 8} : Finset Nat), IsOpen (exampleHolding.filterMap DaemonEvent.pool?) c := by
    intro c hc
    rcases Finset.mem_insert.1 hc with rfl | hc
    · exact ⟨by decide, by decide, by decide, by decide⟩
    · obtain rfl := Finset.mem_singleton.1 hc
      exact ⟨by decide, by decide, by decide, by decide⟩
  have hssl : DocumentedPackets exampleHolding := by
    intro i c env bytes hmem
    simp only [exampleHolding, List.mem_cons, reduceCtorEq, DaemonEvent.packet.injEq, false_or, List.not_mem_nil,
      or_false] at hmem
    rcases hmem with ⟨-, -, rfl, -⟩ | ⟨-, -, rfl, -⟩ <;> exact exampleSsl_documented
  exact ⟨_, rfl, rfl, (daemon_bounded
    (show runs (Daemon.step .unix String.ofList [] exampleSsl (exampleKeys 2048))
      (Daemon.start exampleConfig (exampleFiles "example.com")) exampleHolding = some _ from rfl) hssl {7, 8} hopen).2.2⟩

end DkimLite
