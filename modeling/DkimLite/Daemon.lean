import DkimLite.PoolEnd
import DkimLite.ReloadAtomic
import DkimLite.System

/-!
# The daemon (`src/main.rs:12-21, 61-107`)

| here | there |
| --- | --- |
| `workers` | the number of workers (`main.rs:101-103`) |
| `Daemon` | `run_daemon` after its checks: the main thread in `serve` with its workers (`Pool`), the monitor thread (`Reloader`, with `RELOAD` and `SHUTDOWN`), and the connections |
| `DaemonEvent.relay` | `monitor_shutdown.store(..)`, the last step of the monitor thread (`:98`) |
| `DaemonEvent.stores`, `joinsMonitor` | what follows `milter::serve` (`:105-107`) |

Two flags lead from a signal to the threads that serve: the handler sets `SHUTDOWN`, the monitor sees it
and sets `shutdown`, which `serve` and its workers load. In the other direction, where `serve` fails,
the main thread sets `SHUTDOWN`, and waits for the monitor to end.

A connection is handled packet by packet (`System.receive`), by the worker that has it in hand, with the
configuration that is active then. A packet whose reply cannot be written is not an event: the
connection ends in front of it, as it does where nothing more can be read. Once the main thread has
left, the process is gone, and with it all other threads.
-/

namespace DkimLite
open Rust Text

/-- `thread::available_parallelism().map_or(4, usize::from).clamp(2, 32)` -/
def workers (parallelism : Option Nat) : Nat := max 2 (min (parallelism.getD 4) 32)

inductive MainPoint where
  /-- in `milter::serve` -/
  | serving
  /-- `monitor.join()` -/
  | joining
  | exited (result : Except String Unit)
deriving DecidableEq

section
variable {ι Key : Type} {n : Nat}

structure Daemon (ι Key : Type) (n : Nat) where
  main : MainPoint := .serving
  pool : Pool ι n := {}
  monitor : Reloader Key
  /-- The monitor thread has set `shutdown`, and ended. -/
  relayed : Bool := false
  /-- The connections accepted so far. -/
  seen : List ι := []
  conns : ι → Outcome String Bytes (Flow (Conn Key) Unit) := fun _ => .ok (.again {}) []

inductive DaemonEvent (ι Key : Type) (n : Nat) where
  | monitor (e : ReloadEvent)
  | relay
  | pool (e : PoolEvent ι n)
  /-- Worker `i` handles a packet. -/
  | packet (i : Fin n) (connection : ι) (env : Env Key) (packet : Bytes)
  | stores
  | joinsMonitor

/-- How the handling of a connection can come to its end, where it stands. Where it waits for the peer the
stream may end, or fail. -/
def endsWith : Outcome String Bytes (Flow (Conn Key) Unit) → Except String Unit → Bool
  | .ok (.again _) _, _ | .pending _, _ => true
  | .ok (.done ()) _, .ok () => true
  | .err e _, .error e' => decide (e = e')
  | _, _ => false

def isPanic : Outcome String Bytes (Flow (Conn Key) Unit) → Bool
  | .panic => true
  | _ => false

/-- What the connections say of a step of the pool. -/
def Daemon.admits [DecidableEq ι] (d : Daemon ι Key n) : PoolEvent ι n → Bool
  | .set => false
  | .arrive connection _ => decide (connection ∉ d.seen)
  | .worker _ (.handled connection result) => endsWith (d.conns connection) result
  | .worker _ (.panic connection) => isPanic (d.conns connection)
  | _ => true

/-- The connections accepted, after a step of the pool. -/
def Daemon.saw (d : Daemon ι Key n) : PoolEvent ι n → List ι
  | .arrive connection _ => connection :: d.seen
  | _ => d.seen

section
variable [DecidableEq ι] (listener : Listener) (debugStr : List Char → String) (path : Bytes) (ssl : OpenSsl Key)
  (keys : KeyFormat Key)

/-- One packet more on a connection. -/
def Daemon.receive (d : Daemon ι Key n) (connection : ι) (env : Env Key) (packet : Bytes) : Daemon ι Key n :=
  { d with conns := fun c =>
      if c = connection then System.receive d.monitor.active env packet (d.conns c) else d.conns c }

def Daemon.step (d : Daemon ι Key n) (e : DaemonEvent ι Key n) : Option (Daemon ι Key n) :=
  match d.main, e with
  | .exited _, _ => none
  | _, .monitor e => (d.monitor.step debugStr path ssl keys e).map fun monitor => { d with monitor }
  | _, .relay =>
    match d.monitor.point, d.relayed with
    | .ended, false => some { d with relayed := true, pool := { d.pool with shutdown := true } }
    | _, _ => none
  | _, .pool e =>
    if d.admits e then (d.pool.step listener e).map fun pool => { d with pool, seen := d.saw e } else none
  | _, .packet i connection env packet =>
    if d.pool.workers i = .handling connection then some (d.receive connection env packet) else none
  | .serving, .stores =>
    match d.pool.server.point with
    | .returned _ => some { d with main := .joining, monitor := { d.monitor with shutdownFlag := true } }
    | _ => none
  | .joining, .joinsMonitor =>
    match d.pool.server.point, d.relayed with
    | .returned result, true => some { d with main := .exited result }
    | _, _ => none
  | _, _ => none

/-! ## The steps -/

/-- `Daemon.step`, case by case. -/
inductive DaemonStep (d : Daemon ι Key n) : DaemonEvent ι Key n → Daemon ι Key n → Prop
  | monitor {e : ReloadEvent} {monitor : Reloader Key} (hlive : ∀ r, d.main ≠ .exited r)
      (hstep : d.monitor.step debugStr path ssl keys e = some monitor) : DaemonStep d (.monitor e) { d with monitor }
  | relay (hlive : ∀ r, d.main ≠ .exited r) (hended : d.monitor.point = .ended) (hfirst : d.relayed = false) :
      DaemonStep d .relay { d with relayed := true, pool := { d.pool with shutdown := true } }
  | pool {e : PoolEvent ι n} {pool : Pool ι n} (hlive : ∀ r, d.main ≠ .exited r) (hadmits : d.admits e = true)
      (hstep : d.pool.step listener e = some pool) : DaemonStep d (.pool e) { d with pool, seen := d.saw e }
  | packet {i : Fin n} {connection : ι} {env : Env Key} {packet : Bytes} (hlive : ∀ r, d.main ≠ .exited r)
      (hw : d.pool.workers i = .handling connection) :
      DaemonStep d (.packet i connection env packet) (d.receive connection env packet)
  | stores {r : Except String Unit} (hmain : d.main = .serving) (hreturned : d.pool.server.point = .returned r) :
      DaemonStep d .stores { d with main := .joining, monitor := { d.monitor with shutdownFlag := true } }
  | joinsMonitor {r : Except String Unit} (hmain : d.main = .joining) (hreturned : d.pool.server.point = .returned r)
      (hrelayed : d.relayed = true) : DaemonStep d .joinsMonitor { d with main := .exited r }

variable {listener debugStr path ssl keys}

theorem Daemon.step_cases {d u : Daemon ι Key n} {e : DaemonEvent ι Key n}
    (h : d.step listener debugStr path ssl keys e = some u) : DaemonStep listener debugStr path ssl keys d e u := by
  unfold Daemon.step at h
  split at h
  · cases h
  · rename_i hlive
    obtain ⟨monitor, hstep, rfl⟩ := Option.map_eq_some_iff.1 h
    exact .monitor hlive hstep
  · rename_i hlive
    split at h
    · rename_i hended hfirst
      cases h
      exact .relay hlive hended hfirst
    · cases h
  · rename_i hlive
    split at h
    · rename_i hadmits
      obtain ⟨pool, hstep, rfl⟩ := Option.map_eq_some_iff.1 h
      exact .pool hlive hadmits hstep
    · cases h
  · rename_i hlive
    split at h
    · rename_i hw
      cases h
      exact .packet hlive hw
    · cases h
  · rename_i hmain
    split at h
    · rename_i hreturned
      cases h
      exact .stores hmain hreturned
    · cases h
  · rename_i hmain
    split at h
    · rename_i hreturned hrelayed
      cases h
      exact .joinsMonitor hmain hreturned hrelayed
    · cases h
  · cases h

/-! ## Each thread runs as it does alone -/

omit [DecidableEq ι] in
/-- The daemon's events as the threads of `serve` have them. -/
def DaemonEvent.pool? : DaemonEvent ι Key n → Option (PoolEvent ι n)
  | .relay => some .set
  | .pool e => some e
  | _ => none

/-- The daemon's events as the monitor thread has them: the main thread sets `SHUTDOWN` as a signal does. -/
def DaemonEvent.monitor? : DaemonEvent ι Key n → Option ReloadEvent
  | .monitor e => some e
  | .stores => some .sigterm
  | _ => none

def Daemon.start (initial : RuntimeConfig Key) (files : Files) : Daemon ι Key n := { monitor := { active := initial, files } }

section
variable {initial : RuntimeConfig Key} {files : Files} {d u : Daemon ι Key n} {es : List (DaemonEvent ι Key n)}
  {e : DaemonEvent ι Key n}

theorem daemon_pool (hrun : runs (Daemon.step listener debugStr path ssl keys) (Daemon.start initial files) es = some d) :
    runs (Pool.step listener) {} (es.filterMap DaemonEvent.pool?) = some d.pool := by
  refine runs_component Daemon.pool DaemonEvent.pool? ?_ ?_ hrun
  · intro d e u h hnone
    cases Daemon.step_cases h with
    | relay _ _ _ => cases hnone
    | pool _ _ _ => cases hnone
    | _ => rfl
  · intro d e u f h hsome
    cases Daemon.step_cases h with
    | relay _ _ _ => cases hsome; rfl
    | pool _ _ hstep => cases hsome; exact hstep
    | _ => cases hsome

theorem daemon_monitor (hrun : runs (Daemon.step listener debugStr path ssl keys) (Daemon.start initial files) es = some d) :
    runs (Reloader.step debugStr path ssl keys) { active := initial, files } (es.filterMap DaemonEvent.monitor?) =
      some d.monitor := by
  refine runs_component Daemon.monitor DaemonEvent.monitor? ?_ ?_ hrun
  · intro d e u h hnone
    cases Daemon.step_cases h with
    | monitor _ _ => cases hnone
    | stores _ _ => cases hnone
    | _ => rfl
  · intro d e u f h hsome
    cases Daemon.step_cases h with
    | monitor _ hstep => cases hsome; exact hstep
    | stores _ _ => cases hsome; simp only [Reloader.step]
    | _ => cases hsome

end

/-! ## From a signal to the end -/

section
variable {m v : Reloader Key} {f : ReloadEvent}

omit [DecidableEq ι] in
theorem Reloader.shutdown_step (h : ReloadStep debugStr path ssl keys m f v) (hset : v.shutdownFlag = true) :
    m.shutdownFlag = true ∨ f = .sigterm := by
  cases h with
  | sigterm => exact Or.inr rfl
  | _ => exact Or.inl hset

theorem Reloader.shutdown_stays (h : ReloadStep debugStr path ssl keys m f v) (hset : m.shutdownFlag = true) :
    v.shutdownFlag = true := by
  cases h with
  | sigterm => rfl
  | _ => exact hset

theorem Reloader.ended_stays (h : ReloadStep debugStr path ssl keys m f v) (hended : m.point = .ended) : v.point = .ended := by
  cases h with
  | sighup => exact hended
  | sigterm => exact hended
  | rewrite files => exact hended
  | _ hp => rw [hended] at hp; cases hp

/-- The thread ends where it finds `SHUTDOWN` set. -/
theorem Reloader.ends (hstep : m.step debugStr path ssl keys f = some v) (hended : v.point = .ended) :
    m.point = .ended ∨ m.shutdownFlag = true := by
  cases Reloader.step_cases hstep with
  | sighup => exact Or.inl hended
  | sigterm => exact Or.inl hended
  | rewrite files => exact Or.inl hended
  | @tested hp point hbetween =>
    right
    have hpoint : point = if m.shutdownFlag then .ended else .swapping := congrArg Reloader.point (Reloader.tested hp hstep)
    cases hflag : m.shutdownFlag with
    | true => rfl
    | false =>
      rw [hflag] at hpoint
      rw [hpoint] at hended
      cases hended
  | _ => cases hended

end

omit [DecidableEq ι] in
theorem Pool.returned_stays {p q : Pool ι n} {e : PoolEvent ι n} {r : Except String Unit} (h : PoolStep listener p e q)
    (hreturned : p.server.point = .returned r) : q.server.point = .returned r := by
  cases h with
  | served hserve hanswers hstep =>
    simp only [Server.step, hreturned, reduceCtorEq] at hstep
  | _ => exact hreturned

section
variable {initial : RuntimeConfig Key} {files : Files} {d u : Daemon ι Key n} {es : List (DaemonEvent ι Key n)}
  {e : DaemonEvent ι Key n}

/-- How the flags and the ends of the threads hang together. -/
structure Linked (es : List (DaemonEvent ι Key n)) (d : Daemon ι Key n) : Prop where
  asked : d.monitor.shutdownFlag = true → .monitor .sigterm ∈ es ∨ d.main ≠ .serving
  ended : d.monitor.point = .ended → d.monitor.shutdownFlag = true
  relayed : d.relayed = true → d.monitor.point = .ended
  shutdown : d.pool.shutdown = d.relayed
  returned : d.main ≠ .serving → ∃ r, d.pool.server.point = .returned r
  ok : d.pool.server.point = .returned (.ok ()) → .monitor .sigterm ∈ es
  exited : ∀ r, d.main = .exited r → d.pool.server.point = .returned r ∧ d.relayed = true

theorem Linked.step (h : Linked es d) (hreturning : ∀ r, u.pool.server.point = .returned (.ok r) → u.pool.shutdown = true)
    (hstep : DaemonStep listener debugStr path ssl keys d e u) : Linked (es ++ [e]) u := by
  have hmem : ∀ f, f ∈ es → f ∈ es ++ [e] := fun f hf => List.mem_append_left _ hf
  cases hstep with
  | monitor hlive hmonitor =>
    have hcases := Reloader.step_cases hmonitor
    refine ⟨fun hset => ?_, fun hended => ?_, fun hrelayed => Reloader.ended_stays hcases (h.relayed hrelayed), h.shutdown,
      h.returned, fun hok => hmem _ (h.ok hok), h.exited⟩
    · rcases Reloader.shutdown_step hcases hset with hbefore | rfl
      · exact (h.asked hbefore).imp_left (hmem _)
      · exact Or.inl (by simp)
    · exact Reloader.shutdown_stays hcases ((Reloader.ends hmonitor hended).elim h.ended id)
  | relay hlive hended hfirst =>
    exact ⟨fun hset => (h.asked hset).imp_left (hmem _), h.ended, fun _ => hended, rfl, h.returned,
      fun hok => hmem _ (h.ok hok), fun r hr => ⟨(h.exited r hr).1, rfl⟩⟩
  | @pool f pool hlive hadmits hpool =>
    have hcases := Pool.step_cases hpool
    have hshutdown : pool.shutdown = d.pool.shutdown := by
      cases hcases with
      | set => cases hadmits
      | served _ _ _ => simp
      | _ => rfl
    refine ⟨fun hset => (h.asked hset).imp_left (hmem _), h.ended, h.relayed, hshutdown.trans h.shutdown, fun hmain => ?_,
      fun hok => ?_, fun r hr => absurd hr (hlive r)⟩
    · obtain ⟨r, hr⟩ := h.returned hmain
      exact ⟨r, Pool.returned_stays hcases hr⟩
    · -- the flag was set before the return, so the main thread has not set `SHUTDOWN`
      have hrelayed : d.relayed = true := by
        rw [← h.shutdown, ← hshutdown]
        exact hreturning () hok
      rcases h.asked (h.ended (h.relayed hrelayed)) with hsigterm | hmain
      · exact hmem _ hsigterm
      · obtain ⟨r, hr⟩ := h.returned hmain
        have hsame := (Pool.returned_stays hcases hr).symm.trans hok
        cases hsame
        exact hmem _ (h.ok hr)
  | packet hlive hw =>
    exact ⟨fun hset => (h.asked hset).imp_left (hmem _), h.ended, h.relayed, h.shutdown, h.returned,
      fun hok => hmem _ (h.ok hok), h.exited⟩
  | @stores r hmain hreturned =>
    exact ⟨fun _ => Or.inr (by simp), fun _ => rfl, h.relayed, h.shutdown, fun _ => ⟨r, hreturned⟩,
      fun hok => hmem _ (h.ok hok), by simp⟩
  | @joinsMonitor r hmain hreturned hrelayed =>
    refine ⟨fun _ => Or.inr (by simp), h.ended, h.relayed, h.shutdown, fun _ => ⟨r, hreturned⟩, fun hok => hmem _ (h.ok hok), ?_⟩
    rintro r' hr
    cases hr
    exact ⟨hreturned, hrelayed⟩

theorem linked_run (hrun : runs (Daemon.step listener debugStr path ssl keys) (Daemon.start initial files) es = some d) :
    Linked es d := by
  refine (runs_history (P := fun es d => runs (Daemon.step listener debugStr path ssl keys) (Daemon.start initial files) es =
    some d ∧ Linked es d) hrun ⟨rfl, by constructor <;> simp [Daemon.start]⟩ ?_).2
  rintro es t e u ⟨ht, hlinked⟩ hstep
  have hu := runs_snoc.2 ⟨t, ht, hstep⟩
  refine ⟨hu, hlinked.step (fun r hr => ?_) (Daemon.step_cases hstep)⟩
  have hknows := (returning_run (daemon_pool hu)).knows
  rw [hr] at hknows
  exact hknows.1

end

end

end

end DkimLite
