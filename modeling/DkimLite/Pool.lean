import DkimLite.Rust.Channel
import DkimLite.Rust.Threads
import DkimLite.Serve

/-!
# The workers (`src/milter.rs:190-247`)

| here | there |
| --- | --- |
| `WorkerPoint`, `WorkerPoint.step` | the loop of a worker (`:203-216`) |
| `Pool` | `serve` as a whole: its own thread (`Server`), the channel of `workers * 2`, the lock around the receiver, the workers, and how many of them have been joined (`:241-246`) |
| `PoolEvent.set` | another thread sets the flag |

`Serve.lean` has the thread of `serve` by itself: whether the queue is full and how the workers end are
answers from outside. Here they are what the channel and the workers say, in any interleaving, and a
connection is known by a value of `ι`.

The lock is held during `recv` only: the guard is a temporary of the `let`, and is gone before the
flag is loaded. So a panic, which can only come from the handling of a connection, never poisons it.
A connection that is received after the flag was set is closed unanswered, and its worker ends.
-/

namespace DkimLite
open Rust

inductive WorkerPoint (ι : Type) where
  /-- `receiver.lock()` -/
  | locking
  /-- `.recv()`, under the lock -/
  | receiving
  /-- `if worker_shutdown.load(..)` -/
  | received (connection : ι)
  /-- `handle_connection(..)` -/
  | handling (connection : ι)
  | ended
  | panicked
deriving DecidableEq

inductive WorkerEvent (ι : Type) where
  | lock
  /-- `none` is a `RecvError`. -/
  | recv (result : Option ι)
  | load (connection : ι) (shutdown : Bool)
  | handled (connection : ι) (result : Except String Unit)
  | panic (connection : ι)

section
variable {ι : Type} {n : Nat}

structure Pool (ι : Type) (n : Nat) where
  server : Server := {}
  channel : Channel ι := { capacity := n * 2 }
  workers : Fin n → WorkerPoint ι := fun _ => .locking
  /-- The handles joined so far. -/
  joined : Nat := 0
  shutdown : Bool := false
  /-- The lines of the workers. -/
  log : List String := []

inductive PoolEvent (ι : Type) (n : Nat) where
  | set
  | load (shutdown : Bool)
  | waitReadable (result : Except String Bool)
  /-- `accept` returns a connection, which is sent. -/
  | arrive (connection : ι) (a : Arrival)
  | acceptFails (a : Arrival)
  /-- `worker.join()` of a worker that has ended. -/
  | join (i : Fin n)
  | joinPanicked (i : Fin n)
  | joinedAll
  | worker (i : Fin n) (e : WorkerEvent ι)

/-- `drop(sender)`, or the sender is dropped as `serve` returns. -/
def ServePoint.senderGone : ServePoint → Bool
  | .joining | .returned _ => true
  | _ => false

def Pool.goOn (p : Pool ι n) (server : Server) : Pool ι n :=
  { p with server, channel := if server.point.senderGone then p.channel.close else p.channel }

/-- The lock is free. -/
def Pool.Unlocked (p : Pool ι n) : Prop := ∀ i, p.workers i ≠ .receiving

def closedLine (error : String) : String := "dkim-lite: milter connection closed: " ++ error

/-- What a worker logs of a connection it has handled. -/
def handledLog : Except String Unit → List String
  | .ok () => []
  | .error error => [closedLine error]

def Pool.move (p : Pool ι n) (i : Fin n) (w : WorkerPoint ι) : Pool ι n :=
  { p with workers := Function.update p.workers i w }

/-- `sender.try_send(connection)` -/
def Pool.trySend (p : Pool ι n) (connection : ι) : Pool ι n := { p with channel := p.channel.trySend connection }

section
variable [DecidableEq ι]

def WorkerPoint.step : WorkerPoint ι → WorkerEvent ι → Option (WorkerPoint ι)
  | .locking, .lock => some .receiving
  | .receiving, .recv (some connection) => some (.received connection)
  | .receiving, .recv none => some .ended
  | .received connection, .load loaded shutdown =>
    if loaded = connection then some (if shutdown then .ended else .handling connection) else none
  | .handling connection, .handled done _ => if done = connection then some .locking else none
  | .handling connection, .panic lost => if lost = connection then some .panicked else none
  | _, _ => none

instance (p : Pool ι n) : Decidable p.Unlocked := inferInstanceAs (Decidable (∀ i, p.workers i ≠ .receiving))

/-- A step of worker `i`, which leads it to `w`. -/
def Pool.workerStep (p : Pool ι n) (i : Fin n) (w : WorkerPoint ι) : WorkerEvent ι → Option (Pool ι n)
  | .lock => if p.Unlocked then some (p.move i w) else none
  | .recv result => do
    let (got, channel) ← p.channel.recv
    if got = result then some { p.move i w with channel } else none
  | .load _ shutdown => if shutdown = p.shutdown then some (p.move i w) else none
  | .handled _ result => some { p.move i w with log := p.log ++ handledLog result }
  | .panic _ => some (p.move i w)

def Pool.step (listener : Listener) (p : Pool ι n) : PoolEvent ι n → Option (Pool ι n)
  | .set => some { p with shutdown := true }
  | .load shutdown => if shutdown = p.shutdown then (p.server.step listener (.load shutdown)).map p.goOn else none
  | .waitReadable result => (p.server.step listener (.waitReadable result)).map p.goOn
  | .arrive connection a =>
    if listener.accept a = .ok () ∧ a.queueFull = p.channel.full then
      (p.server.step listener (.arrival a)).map (p.trySend connection).goOn
    else none
  | .acceptFails a => if listener.accept a = .ok () then none else (p.server.step listener (.arrival a)).map p.goOn
  | .join i =>
    match p.server.point with
    | .joining => if p.joined = i ∧ p.workers i = .ended then some { p with joined := p.joined + 1 } else none
    | _ => none
  | .joinPanicked i =>
    if p.joined = i ∧ p.workers i = .panicked then (p.server.step listener (.joined true)).map p.goOn else none
  | .joinedAll => if p.joined = n then (p.server.step listener (.joined false)).map p.goOn else none
  | .worker i e => do
    let w ← (p.workers i).step e
    p.workerStep i w e

end

/-! ## The steps -/

/-- The event as the thread of `serve` sees it. -/
def PoolEvent.serve? : PoolEvent ι n → Option ServeEvent
  | .load shutdown => some (.load shutdown)
  | .waitReadable result => some (.waitReadable result)
  | .arrive _ a => some (.arrival a)
  | .acceptFails a => some (.arrival a)
  | .joinPanicked _ => some (.joined true)
  | .joinedAll => some (.joined false)
  | _ => none

def Pool.sent (p : Pool ι n) : PoolEvent ι n → Pool ι n
  | .arrive connection _ => p.trySend connection
  | _ => p

section
variable (listener : Listener)

/-- What the rest of the pool says of such an event. -/
def Pool.Answers (p : Pool ι n) : PoolEvent ι n → Prop
  | .load shutdown => shutdown = p.shutdown
  | .arrive _ a => listener.accept a = .ok () ∧ a.queueFull = p.channel.full
  | .acceptFails a => listener.accept a ≠ .ok ()
  | .joinPanicked i => p.joined = i ∧ p.workers i = .panicked
  | .joinedAll => p.joined = n
  | _ => True

/-- `Pool.step`, case by case. -/
inductive PoolStep (p : Pool ι n) : PoolEvent ι n → Pool ι n → Prop
  | set : PoolStep p .set { p with shutdown := true }
  | served {e : PoolEvent ι n} {d : ServeEvent} {server : Server} (hserve : e.serve? = some d)
      (hanswers : p.Answers listener e) (hstep : p.server.step listener d = some server) :
      PoolStep p e ((p.sent e).goOn server)
  | joined {i : Fin n} (hpoint : p.server.point = .joining) (hjoined : p.joined = i) (hw : p.workers i = .ended) :
      PoolStep p (.join i) { p with joined := p.joined + 1 }
  | locked {i : Fin n} (hw : p.workers i = .locking) (hfree : p.Unlocked) : PoolStep p (.worker i .lock) (p.move i .receiving)
  | received {i : Fin n} {connection : ι} {channel : Channel ι} (hw : p.workers i = .receiving)
      (hrecv : p.channel.recv = some (some connection, channel)) :
      PoolStep p (.worker i (.recv (some connection))) { p.move i (.received connection) with channel }
  | disconnected {i : Fin n} {channel : Channel ι} (hw : p.workers i = .receiving)
      (hrecv : p.channel.recv = some (none, channel)) :
      PoolStep p (.worker i (.recv none)) { p.move i .ended with channel }
  | dropped {i : Fin n} {connection : ι} (hw : p.workers i = .received connection) (hflag : p.shutdown = true) :
      PoolStep p (.worker i (.load connection true)) (p.move i .ended)
  | begun {i : Fin n} {connection : ι} (hw : p.workers i = .received connection) (hflag : p.shutdown = false) :
      PoolStep p (.worker i (.load connection false)) (p.move i (.handling connection))
  | handled {i : Fin n} {connection : ι} (result : Except String Unit) (hw : p.workers i = .handling connection) :
      PoolStep p (.worker i (.handled connection result)) { p.move i .locking with log := p.log ++ handledLog result }
  | panicked {i : Fin n} {connection : ι} (hw : p.workers i = .handling connection) :
      PoolStep p (.worker i (.panic connection)) (p.move i .panicked)

end

variable {listener : Listener}

@[simp] theorem Pool.sent_shutdown (p : Pool ι n) (e : PoolEvent ι n) : (p.sent e).shutdown = p.shutdown := by cases e <;> rfl
@[simp] theorem Pool.sent_workers (p : Pool ι n) (e : PoolEvent ι n) : (p.sent e).workers = p.workers := by cases e <;> rfl
@[simp] theorem Pool.sent_joined (p : Pool ι n) (e : PoolEvent ι n) : (p.sent e).joined = p.joined := by cases e <;> rfl

@[simp] theorem Pool.goOn_server (p : Pool ι n) (server : Server) : (p.goOn server).server = server := rfl
@[simp] theorem Pool.goOn_workers (p : Pool ι n) (server : Server) : (p.goOn server).workers = p.workers := rfl
@[simp] theorem Pool.goOn_joined (p : Pool ι n) (server : Server) : (p.goOn server).joined = p.joined := rfl
@[simp] theorem Pool.goOn_shutdown (p : Pool ι n) (server : Server) : (p.goOn server).shutdown = p.shutdown := rfl

theorem Pool.goOn_fifo {p : Pool ι n} {server : Server} {sent received : List ι}
    (h : p.channel.Fifo (n * 2) sent received) : (p.goOn server).channel.Fifo (n * 2) sent received := by
  unfold Pool.goOn
  cases server.point.senderGone with
  | true => exact h.close
  | false => exact h

/-! ## The thread of `serve` runs as it does alone -/

/-- The pool's events as the thread of `serve` and the flag have them. -/
def PoolEvent.flag? : PoolEvent ι n → Option (FlagEvent ServeEvent)
  | .set => some .set
  | e => e.serve?.map .own

theorem PoolEvent.flag?_of_serve {e : PoolEvent ι n} {d : ServeEvent} (h : e.serve? = some d) : e.flag? = some (.own d) := by
  cases e with
  | set => cases h
  | _ => simp [PoolEvent.flag?, h]

/-- What the thread loads is the flag. -/
theorem Pool.Answers.load {p : Pool ι n} {e : PoolEvent ι n} {d : ServeEvent} (h : p.Answers listener e)
    (hserve : e.serve? = some d) : d.load? = none ∨ d.load? = some p.shutdown := by
  cases e with
  | load shutdown =>
    cases hserve
    exact Or.inr (congrArg some h)
  | waitReadable result => cases hserve; exact Or.inl rfl
  | arrive connection a => cases hserve; exact Or.inl rfl
  | acceptFails a => cases hserve; exact Or.inl rfl
  | joinPanicked i => cases hserve; exact Or.inl rfl
  | joinedAll => cases hserve; exact Or.inl rfl
  | set => cases hserve
  | join i => cases hserve
  | worker i e => cases hserve

section
variable [DecidableEq ι]

theorem Pool.recv_step {p q : Pool ι n} {i : Fin n} {w : WorkerPoint ι} {result : Option ι}
    (h : p.workerStep i w (.recv result) = some q) :
    ∃ channel, p.channel.recv = some (result, channel) ∧ q = { p.move i w with channel } := by
  simp only [Pool.workerStep, Option.bind_eq_bind, Option.bind_eq_some_iff] at h
  obtain ⟨⟨got, channel⟩, hrecv, h⟩ := h
  by_cases hgot : got = result
  · rw [if_pos hgot] at h
    cases h
    exact ⟨channel, hgot ▸ hrecv, rfl⟩
  · rw [if_neg hgot] at h
    cases h

/-- The steps of a worker. -/
theorem Pool.worker_cases {p q : Pool ι n} {i : Fin n} {e : WorkerEvent ι} (h : p.step listener (.worker i e) = some q) :
    PoolStep listener p (.worker i e) q := by
  simp only [Pool.step, Option.bind_eq_bind, Option.bind_eq_some_iff] at h
  obtain ⟨w, hw, h⟩ := h
  unfold WorkerPoint.step at hw
  split at hw
  · rename_i hpoint
    cases hw
    unfold Pool.workerStep at h
    by_cases hfree : p.Unlocked
    · simp only [hfree, if_true, Option.some.injEq] at h
      exact h ▸ .locked hpoint hfree
    · simp only [hfree, if_false] at h
      cases h
  · rename_i hpoint
    cases hw
    obtain ⟨channel, hrecv, rfl⟩ := Pool.recv_step h
    exact .received hpoint hrecv
  · rename_i hpoint
    cases hw
    obtain ⟨channel, hrecv, rfl⟩ := Pool.recv_step h
    exact .disconnected hpoint hrecv
  · rename_i connection loaded shutdown hpoint
    by_cases hsame : loaded = connection
    · subst hsame
      simp only [if_true, Option.some.injEq] at hw
      subst hw
      by_cases hflag : shutdown = p.shutdown
      · simp only [Pool.workerStep, hflag, if_true, Option.some.injEq] at h
        subst h
        cases hshutdown : p.shutdown with
        | true => rw [hflag, hshutdown]; exact .dropped hpoint hshutdown
        | false => rw [hflag, hshutdown]; exact .begun hpoint hshutdown
      · simp only [Pool.workerStep, hflag, if_false] at h
        cases h
    · rw [if_neg hsame] at hw
      cases hw
  · rename_i connection done result hpoint
    by_cases hsame : done = connection
    · subst hsame
      rw [if_pos rfl] at hw
      cases hw
      cases h
      exact .handled result hpoint
    · rw [if_neg hsame] at hw
      cases hw
  · rename_i connection lost hpoint
    by_cases hsame : lost = connection
    · subst hsame
      rw [if_pos rfl] at hw
      cases hw
      cases h
      exact .panicked hpoint
    · rw [if_neg hsame] at hw
      cases hw
  · cases hw

theorem Pool.step_cases {p q : Pool ι n} {e : PoolEvent ι n} (h : p.step listener e = some q) : PoolStep listener p e q := by
  cases e with
  | set =>
    cases h
    exact .set
  | load shutdown =>
    simp only [Pool.step] at h
    by_cases hflag : shutdown = p.shutdown
    · rw [if_pos hflag] at h
      obtain ⟨server, hstep, rfl⟩ := Option.map_eq_some_iff.1 h
      exact .served rfl hflag hstep
    · rw [if_neg hflag] at h
      cases h
  | waitReadable result =>
    obtain ⟨server, hstep, rfl⟩ := Option.map_eq_some_iff.1 h
    exact .served (e := .waitReadable result) rfl trivial hstep
  | arrive connection a =>
    simp only [Pool.step] at h
    by_cases hanswers : listener.accept a = .ok () ∧ a.queueFull = p.channel.full
    · rw [if_pos hanswers] at h
      obtain ⟨server, hstep, rfl⟩ := Option.map_eq_some_iff.1 h
      exact .served (e := .arrive connection a) rfl hanswers hstep
    · rw [if_neg hanswers] at h
      cases h
  | acceptFails a =>
    simp only [Pool.step] at h
    by_cases haccept : listener.accept a = .ok ()
    · rw [if_pos haccept] at h
      cases h
    · rw [if_neg haccept] at h
      obtain ⟨server, hstep, rfl⟩ := Option.map_eq_some_iff.1 h
      exact .served (e := .acceptFails a) rfl haccept hstep
  | join i =>
    simp only [Pool.step] at h
    split at h
    · rename_i hpoint
      by_cases hended : p.joined = i ∧ p.workers i = .ended
      · rw [if_pos hended] at h
        cases h
        exact .joined hpoint hended.1 hended.2
      · rw [if_neg hended] at h
        cases h
    · cases h
  | joinPanicked i =>
    simp only [Pool.step] at h
    by_cases hpanicked : p.joined = i ∧ p.workers i = .panicked
    · rw [if_pos hpanicked] at h
      obtain ⟨server, hstep, rfl⟩ := Option.map_eq_some_iff.1 h
      exact .served (e := .joinPanicked i) rfl hpanicked hstep
    · rw [if_neg hpanicked] at h
      cases h
  | joinedAll =>
    simp only [Pool.step] at h
    by_cases hall : p.joined = n
    · rw [if_pos hall] at h
      obtain ⟨server, hstep, rfl⟩ := Option.map_eq_some_iff.1 h
      exact .served (e := .joinedAll) rfl hall hstep
    · rw [if_neg hall] at h
      cases h
  | worker i e => exact Pool.worker_cases h

/-- **The thread of `serve` runs as it does alone**, under a flag, with the answers of the pool. -/
theorem server_runs {p : Pool ι n} {es : List (PoolEvent ι n)} (hrun : runs (Pool.step listener) {} es = some p) :
    runs (flagged (Server.step listener) ServeEvent.load?) ({}, false) (es.filterMap PoolEvent.flag?) =
      some (p.server, p.shutdown) := by
  refine runs_component (fun p : Pool ι n => (p.server, p.shutdown)) PoolEvent.flag? ?_ ?_ hrun
  · intro p e q h hnone
    cases Pool.step_cases h with
    | set => cases hnone
    | served hserve _ _ => rw [PoolEvent.flag?_of_serve hserve] at hnone; cases hnone
    | _ => rfl
  · intro p e q d h hsome
    cases Pool.step_cases h with
    | set =>
      cases hsome
      rfl
    | served hserve hanswers hstep =>
      rw [PoolEvent.flag?_of_serve hserve] at hsome
      cases hsome
      refine flagged_own.2 ⟨steady_eq_some.2 ⟨hanswers.load hserve, hstep⟩, ?_⟩
      simp
    | _ => cases hsome

end

/-! ## What has become of the connections -/

/-- A connection that was let into the channel. -/
def PoolEvent.entered? : PoolEvent ι n → Option ι
  | .arrive connection a => if a.queueFull then none else some connection
  | _ => none

def PoolEvent.received? : PoolEvent ι n → Option ι
  | .worker _ (.recv result) => result
  | _ => none

/-- The handling of a connection begins. -/
def PoolEvent.begun? : PoolEvent ι n → Option ι
  | .worker _ (.load connection false) => some connection
  | _ => none

/-- The handling of a connection has come to its end. -/
def PoolEvent.handled? : PoolEvent ι n → Option ι
  | .worker _ (.handled connection _) => some connection
  | _ => none

/-- A connection is gone with its worker. -/
def PoolEvent.lost? : PoolEvent ι n → Option ι
  | .worker _ (.panic connection) => some connection
  | _ => none

/-- A connection is closed unanswered. -/
def PoolEvent.dropped? : PoolEvent ι n → Option ι
  | .worker _ (.load connection true) => some connection
  | _ => none

def WorkerPoint.done : WorkerPoint ι → Nat
  | .ended => 1
  | _ => 0

def WorkerPoint.broken : WorkerPoint ι → Nat
  | .panicked => 1
  | _ => 0

/-- A worker that takes no more steps. -/
def WorkerPoint.over (w : WorkerPoint ι) : Nat := w.done + w.broken

section
variable [DecidableEq ι]

/-- What a worker has in hand. -/
def WorkerPoint.holds (connection : ι) : WorkerPoint ι → Nat
  | .received c | .handling c => if c = connection then 1 else 0
  | _ => 0

/-- Whether a worker is handling it. -/
def WorkerPoint.handles (connection : ι) : WorkerPoint ι → Nat
  | .handling c => if c = connection then 1 else 0
  | _ => 0

/-- The account of the connections: what was received is in hand, or was handled, lost or dropped. -/
structure Tally (es : List (PoolEvent ι n)) (p : Pool ι n) : Prop where
  fifo : p.channel.Fifo (n * 2) (es.filterMap PoolEvent.entered?) (es.filterMap PoolEvent.received?)
  hand : ∀ c, (es.filterMap PoolEvent.received?).count c = total (WorkerPoint.holds c) p.workers +
    (es.filterMap PoolEvent.handled?).count c + (es.filterMap PoolEvent.lost?).count c +
      (es.filterMap PoolEvent.dropped?).count c
  begun : ∀ c, (es.filterMap PoolEvent.begun?).count c = total (WorkerPoint.handles c) p.workers +
    (es.filterMap PoolEvent.handled?).count c + (es.filterMap PoolEvent.lost?).count c
  /-- A drop ends its worker. -/
  ended : (es.filterMap PoolEvent.dropped?).length ≤ total WorkerPoint.done p.workers
  lost : (es.filterMap PoolEvent.lost?).length = total WorkerPoint.broken p.workers
  flag : es.filterMap PoolEvent.dropped? ≠ [] → p.shutdown = true

/-- An event that concerns no connection in a worker's hand. -/
def PoolEvent.Quiet (e : PoolEvent ι n) : Prop :=
  e.received? = none ∧ e.begun? = none ∧ e.handled? = none ∧ e.lost? = none ∧ e.dropped? = none

omit [DecidableEq ι] in
theorem PoolEvent.serve?_quiet {e : PoolEvent ι n} {d : ServeEvent} (h : e.serve? = some d) : e.Quiet := by
  cases e with
  | worker i e => cases h
  | _ => exact ⟨rfl, rfl, rfl, rfl, rfl⟩

omit [DecidableEq ι] in
/-- What the thread of `serve` sends. -/
theorem Pool.sent_fifo {p : Pool ι n} {e : PoolEvent ι n} {sent received : List ι} (hanswers : p.Answers listener e)
    (h : p.channel.Fifo (n * 2) sent received) :
    (p.sent e).channel.Fifo (n * 2) (sent ++ e.entered?.toList) received := by
  cases e with
  | arrive connection a =>
    have hfull : a.queueFull = p.channel.full := hanswers.2
    simp only [Pool.sent, Pool.trySend, PoolEvent.entered?]
    cases hqueue : a.queueFull with
    | true => simpa using h.refuse (hfull.symm.trans hqueue)
    | false => simpa using h.send (hfull.symm.trans hqueue)
  | _ => simpa [Pool.sent, PoolEvent.entered?] using h

/-- The workers stay. -/
theorem Tally.quiet {p q : Pool ι n} {es : List (PoolEvent ι n)} {e : PoolEvent ι n} (h : Tally es p)
    (hquiet : e.Quiet) (hworkers : q.workers = p.workers) (hshutdown : p.shutdown = true → q.shutdown = true)
    (hfifo : q.channel.Fifo (n * 2) (es.filterMap PoolEvent.entered? ++ e.entered?.toList)
      (es.filterMap PoolEvent.received?)) : Tally (es ++ [e]) q := by
  obtain ⟨hreceived, hbegun, hhandled, hlost, hdropped⟩ := hquiet
  refine ⟨?_, ?_, ?_, ?_, ?_, ?_⟩ <;>
    simp only [filterMap_snoc, hreceived, hbegun, hhandled, hlost, hdropped, hworkers, Option.toList_none, List.append_nil]
  · exact hfifo
  · exact h.hand
  · exact h.begun
  · exact h.ended
  · exact h.lost
  · exact fun hsome => hshutdown (h.flag hsome)

/-- Worker `i` moves to `w`: what it had in hand is accounted for. -/
theorem Tally.moved {p q : Pool ι n} {es : List (PoolEvent ι n)} {e : PoolEvent ι n} {i : Fin n} {w : WorkerPoint ι}
    (h : Tally es p) (hworkers : q.workers = Function.update p.workers i w) (hshutdown : q.shutdown = p.shutdown)
    (hfifo : q.channel.Fifo (n * 2) (es.filterMap PoolEvent.entered?)
      (es.filterMap PoolEvent.received? ++ e.received?.toList)) (hentered : e.entered? = none)
    (hhand : ∀ c, e.received?.toList.count c + (p.workers i).holds c =
      w.holds c + e.handled?.toList.count c + e.lost?.toList.count c + e.dropped?.toList.count c)
    (hbegun : ∀ c, e.begun?.toList.count c + (p.workers i).handles c =
      w.handles c + e.handled?.toList.count c + e.lost?.toList.count c)
    (hended : e.dropped?.toList.length + (p.workers i).done ≤ w.done)
    (hlost : e.lost?.toList.length + (p.workers i).broken = w.broken) (hflag : e.dropped? ≠ none → p.shutdown = true) :
    Tally (es ++ [e]) q := by
  refine ⟨?_, fun c => ?_, fun c => ?_, ?_, ?_, ?_⟩ <;> simp only [filterMap_snoc, hworkers, hshutdown, List.count_append]
  · simpa [hentered] using hfifo
  · have hmove := total_update (WorkerPoint.holds c) p.workers i w
    have hbefore := h.hand c
    have hshare := hhand c
    omega
  · have hmove := total_update (WorkerPoint.handles c) p.workers i w
    have hbefore := h.begun c
    have hshare := hbegun c
    omega
  · have hmove := total_update WorkerPoint.done p.workers i w
    have hbefore := h.ended
    rw [List.length_append]
    omega
  · have hmove := total_update WorkerPoint.broken p.workers i w
    have hbefore := h.lost
    rw [List.length_append]
    omega
  · intro hsome
    by_cases hnone : e.dropped? = none
    · rw [hnone, Option.toList_none, List.append_nil] at hsome
      exact h.flag hsome
    · exact hflag hnone

/-- **One step** keeps the account. -/
theorem Tally.step {p q : Pool ι n} {es : List (PoolEvent ι n)} {e : PoolEvent ι n} (h : Tally es p)
    (hstep : PoolStep listener p e q) : Tally (es ++ [e]) q := by
  cases hstep with
  | set =>
    refine h.quiet ⟨rfl, rfl, rfl, rfl, rfl⟩ rfl (fun _ => rfl) ?_
    simpa [PoolEvent.entered?] using h.fifo
  | served hserve hanswers _ =>
    refine h.quiet (PoolEvent.serve?_quiet hserve) ?_ ?_ (Pool.goOn_fifo (Pool.sent_fifo hanswers h.fifo))
    · rw [Pool.goOn_workers, Pool.sent_workers]
    · rw [Pool.goOn_shutdown, Pool.sent_shutdown]
      exact id
  | joined hpoint hjoined hw =>
    refine h.quiet ⟨rfl, rfl, rfl, rfl, rfl⟩ rfl id ?_
    simpa [PoolEvent.entered?] using h.fifo
  | locked hw hfree =>
    refine h.moved rfl rfl ?_ rfl ?_ ?_ ?_ ?_ ?_ <;>
      simp [hw, PoolEvent.received?, PoolEvent.begun?, PoolEvent.handled?, PoolEvent.lost?, PoolEvent.dropped?,
        WorkerPoint.holds, WorkerPoint.handles, WorkerPoint.done, WorkerPoint.broken]
    exact h.fifo
  | received hw hrecv =>
    refine h.moved rfl rfl (h.fifo.recv hrecv) rfl ?_ ?_ ?_ ?_ ?_ <;>
      simp [hw, PoolEvent.received?, PoolEvent.begun?, PoolEvent.handled?, PoolEvent.lost?, PoolEvent.dropped?,
        WorkerPoint.holds, WorkerPoint.handles, WorkerPoint.done, WorkerPoint.broken, List.count_singleton]
  | disconnected hw hrecv =>
    refine h.moved rfl rfl ?_ rfl ?_ ?_ ?_ ?_ ?_ <;>
      simp [hw, PoolEvent.received?, PoolEvent.begun?, PoolEvent.handled?, PoolEvent.lost?, PoolEvent.dropped?,
        WorkerPoint.holds, WorkerPoint.handles, WorkerPoint.done, WorkerPoint.broken]
    rcases Channel.recv_cases hrecv with ⟨_, _, hnone, -⟩ | ⟨-, -, -, rfl⟩
    · cases hnone
    · exact h.fifo
  | dropped hw hshutdown =>
    refine h.moved rfl rfl ?_ rfl ?_ ?_ ?_ ?_ fun _ => hshutdown <;>
      simp [hw, PoolEvent.received?, PoolEvent.begun?, PoolEvent.handled?, PoolEvent.lost?, PoolEvent.dropped?,
        WorkerPoint.holds, WorkerPoint.handles, WorkerPoint.done, WorkerPoint.broken, List.count_singleton]
    exact h.fifo
  | begun hw hshutdown =>
    refine h.moved rfl rfl ?_ rfl ?_ ?_ ?_ ?_ ?_ <;>
      simp [hw, PoolEvent.received?, PoolEvent.begun?, PoolEvent.handled?, PoolEvent.lost?, PoolEvent.dropped?,
        WorkerPoint.holds, WorkerPoint.handles, WorkerPoint.done, WorkerPoint.broken, List.count_singleton]
    exact h.fifo
  | handled result hw =>
    refine h.moved rfl rfl ?_ rfl ?_ ?_ ?_ ?_ ?_ <;>
      simp [hw, PoolEvent.received?, PoolEvent.begun?, PoolEvent.handled?, PoolEvent.lost?, PoolEvent.dropped?,
        WorkerPoint.holds, WorkerPoint.handles, WorkerPoint.done, WorkerPoint.broken, List.count_singleton]
    exact h.fifo
  | panicked hw =>
    refine h.moved rfl rfl ?_ rfl ?_ ?_ ?_ ?_ ?_ <;>
      simp [hw, PoolEvent.received?, PoolEvent.begun?, PoolEvent.handled?, PoolEvent.lost?, PoolEvent.dropped?,
        WorkerPoint.holds, WorkerPoint.handles, WorkerPoint.done, WorkerPoint.broken, List.count_singleton]
    exact h.fifo

/-- The run: by induction on the events. -/
theorem tally_run {p : Pool ι n} {es : List (PoolEvent ι n)} (hrun : runs (Pool.step listener) {} es = some p) :
    Tally es p := by
  refine runs_history hrun ?_ fun es t e u h hstep => h.step (Pool.step_cases hstep)
  refine ⟨Channel.Fifo.empty (n * 2), fun c => ?_, fun c => ?_, Nat.zero_le _, ?_, by simp⟩ <;>
    simp [total, WorkerPoint.holds, WorkerPoint.handles, WorkerPoint.broken]

theorem set_of_shutdown {p : Pool ι n} {es : List (PoolEvent ι n)} (hrun : runs (Pool.step listener) {} es = some p)
    (h : p.shutdown = true) : .set ∈ es := by
  have hflag := (flagged_flag (server_runs hrun)).1 h
  rcases hflag with hfalse | hset
  · cases hfalse
  · obtain ⟨e, he, hset⟩ := List.mem_filterMap.1 hset
    cases e with
    | set => exact he
    | _ => simp [PoolEvent.flag?, PoolEvent.serve?] at hset

end

end

/-- The answers of a turn that queues a connection, or finds the queue full. -/
def exampleArrival (queueFull : Bool) : Arrival := { Arrival.fine with queueFull }

/-- One worker: a connection is handled, two wait, and the queue is full. -/
def exampleServing : List (PoolEvent Nat 1) :=
  [.load false, .waitReadable (.ok true), .load false, .load false, .arrive 1 (exampleArrival false),
    .waitReadable (.ok true), .load false, .arrive 2 (exampleArrival false), .waitReadable (.ok true), .load false,
    .worker 0 .lock, .worker 0 (.recv (some 1)), .worker 0 (.load 1 false), .arrive 3 (exampleArrival false),
    .waitReadable (.ok true), .load false, .arrive 4 (exampleArrival true)]

/-- The flag has been set: the next connection is dropped, the last one never received. -/
def exampleStopping : List (PoolEvent Nat 1) :=
  [.worker 0 (.handled 1 (.ok ())), .worker 0 .lock, .worker 0 (.recv (some 2)), .worker 0 (.load 2 true),
    .waitReadable (.ok true), .load true, .load true, .join 0, .joinedAll]

end DkimLite
