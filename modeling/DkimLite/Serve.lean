import DkimLite.Backlog

/-!
# Serving (`src/milter.rs:99-142, 190-247, 322-338`)

| here | there |
| --- | --- |
| `Arrival` | what one turn of `accept` meets: the answers of `accept` and of the calls that set the stream up, and whether the queue is full |
| `Listener.accept` | `Listener::accept` (`:322-338`), with `set_blocking` (`:100-106`) and `set_timeouts` (`:124-141`) |
| `ServePoint`, `Server.step` | the loop of `serve` and its end (`:218-247`); the connections queued and the lines logged |

`unasked` is `serve` while no shutdown is requested. A failure of one connection goes the way of a
failure of the listener, through the same `Err` of the closure: only its kind is looked at, and
`serve` goes on after it exactly when that is `WouldBlock` (`serves_on`). So a peer that aborts, or
a stream that cannot be set up, ends the daemon (`aborted_peer`).
-/

namespace DkimLite
open Rust

inductive Listener where
  | tcp | unix

/-- One turn of the closure; a call that is not reached is not looked at. -/
structure Arrival where
  accepted : Except AcceptError Unit
  setNonblocking : Except AcceptError Unit
  setNodelay : Except AcceptError Unit
  setReadTimeout : Except AcceptError Unit
  setWriteTimeout : Except AcceptError Unit
  queueFull : Bool

def Arrival.setBlocking (a : Arrival) : Except AcceptError Unit := a.setNonblocking

def Arrival.setTimeouts (a : Arrival) : Listener → Except AcceptError Unit
  | .tcp => do
    a.setNodelay
    a.setReadTimeout
    a.setWriteTimeout
  | .unix => do
    a.setReadTimeout
    a.setWriteTimeout

def Listener.accept (listener : Listener) (a : Arrival) : Except AcceptError Unit := do
  a.accepted
  a.setBlocking
  a.setTimeouts listener

inductive ServeEvent where
  | load (shutdown : Bool)
  | waitReadable (result : Except String Bool)
  | arrival (a : Arrival)
  /-- The workers have ended. -/
  | joined (panicked : Bool)

inductive ServePoint where
  /-- `while !shutdown.load(..)` -/
  | test
  /-- `listener.wait_readable(..)` -/
  | waiting
  /-- `if shutdown.load(..)` -/
  | retest
  | draining (p : DrainPoint)
  | joining
  | returned (result : Except String Unit)

structure Server where
  point : ServePoint := .test
  queued : Nat := 0
  log : List String := []

/-- `sender.try_send(connection)` -/
def Server.trySend (s : Server) (queueFull : Bool) : Server :=
  if queueFull then { s with log := s.log ++ ["dkim-lite: worker queue full; dropping milter connection"] }
  else { s with queued := s.queued + 1 }

/-- The `?` after `drain_backlog`. -/
def DrainPoint.after : DrainPoint → ServePoint
  | .returned (.ok ()) => .test
  | .returned (.error text) => .returned (.error text)
  | p => .draining p

section
variable (listener : Listener)

/-- What `drain_backlog` sees of an event. -/
def ServeEvent.drain? : ServeEvent → Option DrainEvent
  | .load shutdown => some (.load shutdown)
  | .waitReadable result => some (.waitReadable result)
  | .arrival a => some (.accept (listener.accept a))
  | .joined _ => none

/-- The closure's work on an event, before it returns. -/
def Server.take (s : Server) : ServeEvent → Server
  | .arrival a => if listener.accept a = .ok () then s.trySend a.queueFull else s
  | _ => s

def Server.step (s : Server) (e : ServeEvent) : Option Server :=
  match s.point, e with
  | .test, .load shutdown => some { s with point := if shutdown then .joining else .waiting }
  | .waiting, .waitReadable (.ok ready) => some { s with point := if ready then .retest else .test }
  | .waiting, .waitReadable (.error text) => some { s with point := .returned (.error (readinessFailed text)) }
  | .retest, .load shutdown => some { s with point := if shutdown then .joining else .draining .test }
  | .draining p, e => do
    let p ← p.step (← e.drain? listener)
    return { s.take listener e with point := p.after }
  | .joining, .joined panicked =>
    some { s with point := .returned (if panicked then .error "milter worker thread panicked" else .ok ()) }
  | _, _ => none

def ServeEvent.load? : ServeEvent → Option Bool
  | .load shutdown => some shutdown
  | _ => none

/-- `serve` while no shutdown is requested. -/
abbrev unasked : Server → ServeEvent → Option Server := steady (Server.step listener) ServeEvent.load? false

/-- It can still queue connections. -/
def GoesOn (s : Server) : Prop := ∃ es t, runs (unasked listener) s es = some t ∧ s.queued < t.queued

/-! ## Failures -/

/-- A failure of the listener itself. -/
def ListenerFailure : ServeEvent → Prop
  | .waitReadable (.error _) => True
  | .arrival a => ∃ e, a.accepted = .error e ∧ e.kind = .other
  | _ => False

/-- A call that sets the stream up fails, the first of them with `e`; TCP_NODELAY is for TCP. -/
def SetUpFails (a : Arrival) (e : AcceptError) : Prop :=
  a.setNonblocking = .error e ∨ a.setNonblocking = .ok () ∧
    (listener = .tcp ∧ a.setNodelay = .error e ∨ (listener = .tcp → a.setNodelay = .ok ()) ∧
      (a.setReadTimeout = .error e ∨ a.setReadTimeout = .ok () ∧ a.setWriteTimeout = .error e))

/-- A failure that concerns one connection: the peer aborted it, or it was accepted and could not
be set up. -/
def ConnectionFailure (e : AcceptError) : ServeEvent → Prop
  | .arrival a => a.accepted = .error e ∧ e.kind = .connectionAborted ∨ a.accepted = .ok () ∧ SetUpFails listener a e
  | _ => False

/-- A connection failed, and not because accepting would block. -/
def Lost (ev : ServeEvent) : Prop := ∃ e, ConnectionFailure listener e ev ∧ e.kind ≠ .wouldBlock

/-- What ends the loop. -/
def Ends : ServeEvent → Prop
  | .waitReadable (.error _) => True
  | .arrival a => ∃ e, listener.accept a = .error e ∧ e.kind ≠ .wouldBlock
  | _ => False

variable {listener}

theorem accept_of_error {a : Arrival} {e : AcceptError} (h : a.accepted = .error e) : listener.accept a = .error e := by
  rw [Listener.accept, h]
  rfl

theorem accept_eq_error {a : Arrival} {e : AcceptError} (h : a.accepted = .ok ()) :
    listener.accept a = .error e ↔ SetUpFails listener a e := by
  unfold Listener.accept Arrival.setBlocking SetUpFails
  rw [h]
  cases a.setNonblocking with
  | error e' => simp [bind, Except.bind]
  | ok _ =>
    cases listener <;> unfold Arrival.setTimeouts
    case unix => cases a.setReadTimeout <;> simp [bind, Except.bind]
    case tcp =>
      cases a.setNodelay with
      | error e' => simp [bind, Except.bind]
      | ok _ => cases a.setReadTimeout <;> simp [bind, Except.bind]

/-- What ends the loop is a failure of the listener or the loss of a connection. -/
theorem ends_iff {ev : ServeEvent} : Ends listener ev ↔ ListenerFailure ev ∨ Lost listener ev := by
  cases ev with
  | load shutdown => simp [Ends, ListenerFailure, Lost, ConnectionFailure]
  | waitReadable result => cases result <;> simp [Ends, ListenerFailure, Lost, ConnectionFailure]
  | joined panicked => simp [Ends, ListenerFailure, Lost, ConnectionFailure]
  | arrival a =>
    simp only [Ends, ListenerFailure, Lost, ConnectionFailure]
    cases haccepted : a.accepted with
    | ok _ => simp [accept_eq_error haccepted]
    | error e =>
      simp only [accept_of_error haccepted, Except.error.injEq, reduceCtorEq, false_and, or_false, exists_eq_left']
      constructor
      · intro hkind
        cases h : e.kind with
        | wouldBlock => exact absurd h hkind
        | connectionAborted => exact Or.inr ⟨e, ⟨rfl, h⟩, by simp [h]⟩
        | other => exact Or.inl rfl
      · rintro (hkind | ⟨_, ⟨rfl, -⟩, hkind⟩)
        · simp [hkind]
        · exact hkind

theorem ListenerFailure.not_lost {ev : ServeEvent} (h : ListenerFailure ev) : ¬ Lost listener ev := by
  rintro ⟨e, hconnection, -⟩
  cases ev with
  | load shutdown => exact h
  | waitReadable result => exact hconnection
  | joined panicked => exact h
  | arrival a =>
    obtain ⟨e', hfailed, hother⟩ := h
    rcases hconnection with ⟨haborted, hkind⟩ | ⟨hok, -⟩
    · rw [hfailed] at haborted
      cases haborted
      rw [hother] at hkind
      cases hkind
    · rw [hfailed] at hok
      cases hok

/-! ## Serving, and stopped for good -/

/-- In the loop, with no error at hand. -/
def ServePoint.Serving : ServePoint → Prop
  | .test | .waiting | .retest => True
  | .draining .test | .draining .accepting | .draining .readiness => True
  | _ => False

/-- Inside `drain_backlog`. -/
theorem drain_step {s t : Server} {p : DrainPoint} {ev : ServeEvent} (hpoint : s.point = .draining p)
    (h : s.step listener ev = some t) : ∃ e q, ev.drain? listener = some e ∧ DrainStep p e q ∧
      t = { s.take listener ev with point := q.after } := by
  unfold Server.step at h
  rw [hpoint] at h
  simp only [Option.bind_eq_bind, Option.bind_eq_some_iff] at h
  obtain ⟨e, he, q, hq, ht⟩ := h
  exact ⟨e, q, he, DrainPoint.step_cases hq, (Option.some.inj ht).symm⟩

/-- In the loop, an event that can end it does, and no other. -/
theorem serving_step {s t : Server} {ev : ServeEvent} (hserving : s.point.Serving) (h : unasked listener s ev = some t) :
    t.point.Serving ↔ ¬ Ends listener ev := by
  obtain ⟨hload, h⟩ := steady_eq_some.1 h
  cases hpoint : s.point with
  | test =>
    unfold Server.step at h
    cases ev with
    | load shutdown =>
      obtain rfl : shutdown = false := by simpa [ServeEvent.load?] using hload
      rw [hpoint] at h
      cases h
      simp [ServePoint.Serving, Ends]
    | _ => rw [hpoint] at h; cases h
  | waiting =>
    unfold Server.step at h
    cases ev with
    | waitReadable result =>
      rw [hpoint] at h
      cases result with
      | ok ready => cases ready <;> cases h <;> simp [ServePoint.Serving, Ends]
      | error text => cases h; simp [ServePoint.Serving, Ends]
    | _ => rw [hpoint] at h; cases h
  | retest =>
    unfold Server.step at h
    cases ev with
    | load shutdown =>
      obtain rfl : shutdown = false := by simpa [ServeEvent.load?] using hload
      rw [hpoint] at h
      cases h
      simp [ServePoint.Serving, Ends]
    | _ => rw [hpoint] at h; cases h
  | draining p =>
    obtain ⟨e, q, he, hstep, rfl⟩ := drain_step hpoint h
    rw [hpoint] at hserving
    cases ev with
    | load shutdown =>
      obtain rfl : shutdown = false := by simpa [ServeEvent.load?] using hload
      cases he
      cases hstep with
      | goOn => simp [DrainPoint.after, ServePoint.Serving, Ends]
      | failed e => exact hserving.elim
    | waitReadable result =>
      cases he
      cases hstep with
      | ready => simp [DrainPoint.after, ServePoint.Serving, Ends]
      | notReady => simp [DrainPoint.after, ServePoint.Serving, Ends]
      | noReadiness text => simp [DrainPoint.after, ServePoint.Serving, Ends]
    | arrival a =>
      obtain rfl : DrainEvent.accept (listener.accept a) = e := Option.some.inj he
      generalize haccept : listener.accept a = result at hstep
      cases hstep with
      | accepted => simp [DrainPoint.after, ServePoint.Serving, Ends, haccept]
      | wouldBlock hkind => simp [DrainPoint.after, ServePoint.Serving, Ends, haccept, hkind]
      | refused hkind => simp [DrainPoint.after, ServePoint.Serving, Ends, haccept, hkind]
    | joined panicked => cases he
  | joining => rw [hpoint] at hserving; exact hserving.elim
  | returned result => rw [hpoint] at hserving; exact hserving.elim

/-- Outside the loop nothing is queued, and nothing leads back. -/
theorem stopped_step {s t : Server} {ev : ServeEvent} (hstopped : ¬ s.point.Serving) (h : unasked listener s ev = some t) :
    ¬ t.point.Serving ∧ t.queued = s.queued ∧ ¬ Ends listener ev := by
  obtain ⟨hload, h⟩ := steady_eq_some.1 h
  cases hpoint : s.point with
  | test => rw [hpoint] at hstopped; exact absurd trivial hstopped
  | waiting => rw [hpoint] at hstopped; exact absurd trivial hstopped
  | retest => rw [hpoint] at hstopped; exact absurd trivial hstopped
  | draining p =>
    obtain ⟨e, q, he, hstep, rfl⟩ := drain_step hpoint h
    rw [hpoint] at hstopped
    cases hstep with
    | excused e =>
      cases ev with
      | load shutdown => cases he; simp [ServeEvent.load?] at hload
      | _ => cases he
    | failed e =>
      cases ev with
      | load shutdown => exact ⟨fun h => h, rfl, fun h => h⟩
      | _ => cases he
    | _ => exact absurd trivial hstopped
  | joining =>
    unfold Server.step at h
    rw [hpoint] at h
    cases ev with
    | joined panicked => cases h; exact ⟨fun h => h, rfl, fun h => h⟩
    | _ => cases h
  | returned result =>
    unfold Server.step at h
    rw [hpoint] at h
    cases h

/-- A connection that arrives and is queued. -/
def Arrival.fine : Arrival := ⟨.ok (), .ok (), .ok (), .ok (), .ok (), false⟩

/-- From inside the loop there is a way to the next accept. -/
theorem goesOn_of_serving {s : Server} (h : s.point.Serving) : GoesOn listener s := by
  obtain ⟨point, queued, log⟩ := s
  have hfrom : ∀ es, runs (unasked listener) ⟨point, queued, log⟩ (es ++ [.arrival .fine]) =
      some ⟨.draining .readiness, queued + 1, log⟩ → GoesOn listener ⟨point, queued, log⟩ :=
    fun es hrun => ⟨_, _, hrun, Nat.lt_succ_self queued⟩
  cases point with
  | test => exact hfrom [.load false, .waitReadable (.ok true), .load false, .load false] (by cases listener <;> rfl)
  | waiting => exact hfrom [.waitReadable (.ok true), .load false, .load false] (by cases listener <;> rfl)
  | retest => exact hfrom [.load false, .load false] (by cases listener <;> rfl)
  | draining p =>
    cases p with
    | test => exact hfrom [.load false] (by cases listener <;> rfl)
    | accepting => exact hfrom [] (by cases listener <;> rfl)
    | readiness => exact hfrom [.waitReadable (.ok true), .load false] (by cases listener <;> rfl)
    | guard e => exact h.elim
    | returned result => exact h.elim
  | joining => exact h.elim
  | returned result => exact h.elim

theorem not_goesOn_of_stopped {s : Server} (h : ¬ s.point.Serving) : ¬ GoesOn listener s := by
  rintro ⟨es, t, hrun, hmore⟩
  have hsame : ¬ t.point.Serving ∧ t.queued = s.queued := by
    refine runs_keeps (P := fun t => ¬ t.point.Serving ∧ t.queued = s.queued) hrun ⟨h, rfl⟩ ?_
    intro t e u ⟨hstopped, hqueued⟩ hstep
    obtain ⟨hstopped', hqueued', -⟩ := stopped_step hstopped hstep
    exact ⟨hstopped', hqueued'.trans hqueued⟩
  omega

/-- What the events so far say: none of them ends the loop, or one of them did, and it was either a
failure of the listener or the loss of a connection. -/
def Accounted (listener : Listener) (es : List ServeEvent) (s : Server) : Prop :=
  s.point.Serving ∧ (∀ ev ∈ es, ¬ Ends listener ev) ∨
    ¬ s.point.Serving ∧ ((∃ ev ∈ es, ListenerFailure ev) ↔ ∀ ev ∈ es, ¬ Lost listener ev)

theorem Accounted.step {s t : Server} {es : List ServeEvent} {ev : ServeEvent} (h : Accounted listener es s)
    (hstep : unasked listener s ev = some t) : Accounted listener (es ++ [ev]) t := by
  have hsplit : (∃ e ∈ es ++ [ev], ListenerFailure e) ↔ (∃ e ∈ es, ListenerFailure e) ∨ ListenerFailure ev := by
    simp [or_and_right, exists_or]
  unfold Accounted
  simp only [List.forall_mem_append, List.forall_mem_singleton, hsplit]
  rcases h with ⟨hserving, hnone⟩ | ⟨hstopped, hone⟩
  · have hiff := serving_step hserving hstep
    by_cases hends : Ends listener ev
    · refine Or.inr ⟨fun h => hiff.1 h hends, ?_⟩
      have hfailures : ¬ ∃ ev ∈ es, ListenerFailure ev := by
        rintro ⟨e, he, hfailure⟩
        exact hnone e he (ends_iff.2 (Or.inl hfailure))
      have hlost : ∀ ev ∈ es, ¬ Lost listener ev := fun e he hlost => hnone e he (ends_iff.2 (Or.inr hlost))
      rcases ends_iff.1 hends with hfailure | hlose
      · exact iff_of_true (Or.inr hfailure) ⟨hlost, hfailure.not_lost⟩
      · refine iff_of_false ?_ fun h => h.2 hlose
        rintro (h | h)
        · exact hfailures h
        · exact h.not_lost hlose
    · exact Or.inl ⟨hiff.2 hends, hnone, hends⟩
  · obtain ⟨hstopped', -, hends⟩ := stopped_step hstopped hstep
    have hfailure : ¬ ListenerFailure ev := fun h => hends (ends_iff.2 (Or.inl h))
    have hlost : ¬ Lost listener ev := fun h => hends (ends_iff.2 (Or.inr h))
    refine Or.inr ⟨hstopped', ?_⟩
    rw [or_iff_left hfailure, and_iff_left hlost]
    exact hone

/-- **When a failed connection does not end serving.** In every run without a request to shut down,
`serve` can still queue connections, or the listener itself has failed, if and only if every
connection that failed did so with the kind `WouldBlock`. -/
theorem serves_on {s : Server} {es : List ServeEvent} (hrun : runs (unasked listener) {} es = some s) :
    (GoesOn listener s ∨ ∃ ev ∈ es, ListenerFailure ev) ↔
      ∀ ev ∈ es, ∀ e, ConnectionFailure listener e ev → e.kind = .wouldBlock := by
  have hlost : (∀ ev ∈ es, ∀ e, ConnectionFailure listener e ev → e.kind = .wouldBlock) ↔ ∀ ev ∈ es, ¬ Lost listener ev := by
    unfold Lost
    simp
  rw [hlost]
  have haccounted : Accounted listener es s :=
    runs_history hrun (Or.inl ⟨trivial, by simp⟩) fun _ _ _ _ h hstep => h.step hstep
  rcases haccounted with ⟨hserving, hnone⟩ | ⟨hstopped, hone⟩
  · exact iff_of_true (Or.inl (goesOn_of_serving hserving)) fun ev hev h => hnone ev hev (ends_iff.2 (Or.inr h))
  · rw [or_iff_right (not_goesOn_of_stopped hstopped)]
    exact hone

end

/-- The stream could not be set up at once: the connection is gone, and `serve` goes on. -/
theorem serves_on_example : GoesOn .tcp { point := .test } ∨
    ∃ ev ∈ [ServeEvent.load false, .waitReadable (.ok true), .load false, .load false,
      .arrival ⟨.ok (), .ok (), .error ⟨.wouldBlock, "would block"⟩, .ok (), .ok (), false⟩], ListenerFailure ev := by
  refine (serves_on rfl).2 ?_
  simp [ConnectionFailure, SetUpFails]

/-- Accepting reports that the peer has aborted. -/
def Arrival.aborted : Arrival :=
  ⟨.error ⟨.connectionAborted, "Software caused connection abort (os error 103)"⟩, .ok (), .ok (), .ok (), .ok (), false⟩

/-- One aborted connection ends the daemon: the listener has not failed, and no connection is
queued any more. -/
theorem aborted_peer : ∃ es s, runs (unasked .tcp) {} es = some s ∧ .arrival .aborted ∈ es ∧
    (∃ e, ConnectionFailure .tcp e (.arrival .aborted)) ∧
    s.point = .returned (.error "listener failed: Software caused connection abort (os error 103)") ∧
    ¬ GoesOn .tcp s ∧ ¬ ∃ ev ∈ es, ListenerFailure ev := by
  refine ⟨[.load false, .waitReadable (.ok true), .load false, .load false, .arrival .aborted, .load false], _, rfl,
    by simp, ⟨_, Or.inl ⟨rfl, rfl⟩⟩, rfl, not_goesOn_of_stopped fun h => h, ?_⟩
  simp [ListenerFailure, Arrival.aborted]

end DkimLite
