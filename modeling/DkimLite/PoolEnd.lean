import DkimLite.Pool

/-!
# How serving ends (`src/milter.rs:190-247`)

`stepsLeft` prices what is still to come once the flag is set: the thread of `serve` goes once round
its loop at most and then joins, a worker finishes the connection in its hand, takes at most one more,
and ends. `Wired` is what keeps the threads from waiting for each other for ever: the channel is
closed where the thread of `serve` waits for its workers, and one worker at a time holds the lock.

That the handling of a connection comes to its end is an event of the pool like the others; that it
does so within a minute is `Deadline.lean`.
-/

namespace DkimLite
open Rust

/-! ## The steps of the thread of `serve` -/

/-- `Server.step`, case by case. -/
inductive ServeStep (listener : Listener) (s : Server) : ServeEvent → Server → Prop
  | stop (hp : s.point = .test ∨ s.point = .retest) : ServeStep listener s (.load true) { s with point := .joining }
  | poll (hp : s.point = .test) : ServeStep listener s (.load false) { s with point := .waiting }
  | quiet (hp : s.point = .waiting) : ServeStep listener s (.waitReadable (.ok false)) { s with point := .test }
  | ready (hp : s.point = .waiting) : ServeStep listener s (.waitReadable (.ok true)) { s with point := .retest }
  | noReadiness (text : String) (hp : s.point = .waiting) :
      ServeStep listener s (.waitReadable (.error text)) { s with point := .returned (.error (readinessFailed text)) }
  | drain (hp : s.point = .retest) : ServeStep listener s (.load false) { s with point := .draining .test }
  | draining {p q : DrainPoint} {d : ServeEvent} {e : DrainEvent} (hp : s.point = .draining p)
      (he : d.drain? listener = some e) (hstep : DrainStep p e q) :
      ServeStep listener s d { s.take listener d with point := q.after }
  | joined (panicked : Bool) (hp : s.point = .joining) : ServeStep listener s (.joined panicked)
      { s with point := .returned (if panicked then .error "milter worker thread panicked" else .ok ()) }

section
variable {listener : Listener}

theorem Server.step_cases {s t : Server} {d : ServeEvent} (h : s.step listener d = some t) : ServeStep listener s d t := by
  cases hpoint : s.point with
  | draining p =>
    obtain ⟨e, q, he, hstep, rfl⟩ := drain_step hpoint h
    exact .draining hpoint he hstep
  | test =>
    unfold Server.step at h
    rw [hpoint] at h
    cases d with
    | load shutdown =>
      cases h
      cases shutdown with
      | true => exact .stop (Or.inl hpoint)
      | false => exact .poll hpoint
    | _ => cases h
  | waiting =>
    unfold Server.step at h
    rw [hpoint] at h
    cases d with
    | waitReadable result =>
      cases result with
      | ok ready =>
        cases h
        cases ready with
        | true => exact .ready hpoint
        | false => exact .quiet hpoint
      | error text =>
        cases h
        exact .noReadiness text hpoint
    | _ => cases h
  | retest =>
    unfold Server.step at h
    rw [hpoint] at h
    cases d with
    | load shutdown =>
      cases h
      cases shutdown with
      | true => exact .stop (Or.inr hpoint)
      | false => exact .drain hpoint
    | _ => cases h
  | joining =>
    unfold Server.step at h
    rw [hpoint] at h
    cases d with
    | joined panicked =>
      cases h
      exact .joined panicked hpoint
    | _ => cases h
  | returned result =>
    unfold Server.step at h
    rw [hpoint] at h
    cases h

/-- Once the sender is gone, it stays so. -/
theorem senderGone_stays {s t : Server} {d : ServeEvent} (h : ServeStep listener s d t) (hgone : s.point.senderGone = true) :
    t.point.senderGone = true := by
  cases h with
  | stop hp => rfl
  | joined panicked hp => rfl
  | noReadiness text hp => rfl
  | draining hp _ _ => rw [hp] at hgone; cases hgone
  | poll hp => rw [hp] at hgone; cases hgone
  | quiet hp => rw [hp] at hgone; cases hgone
  | ready hp => rw [hp] at hgone; cases hgone
  | drain hp => rw [hp] at hgone; cases hgone

/-! ## What is still to come -/

/-- The joins not counted. -/
def ServePoint.stepsLeft : ServePoint → Nat
  | .test | .retest => 1
  | .waiting => 2
  | .draining p => p.stepsLeft + 1
  | .joining | .returned _ => 0

/-- The joins, with the return. -/
def ServePoint.joinsLeft (left : Nat) : ServePoint → Nat
  | .returned _ => 0
  | _ => left + 1

section
variable {ι : Type} {n : Nat}

def WorkerPoint.stepsLeft : WorkerPoint ι → Nat
  | .handling _ => 4
  | .locking => 3
  | .receiving => 2
  | .received _ => 1
  | .ended | .panicked => 0

def Pool.stepsLeft (p : Pool ι n) : Nat :=
  p.server.point.stepsLeft + p.server.point.joinsLeft (n - p.joined) + total WorkerPoint.stepsLeft p.workers

theorem WorkerPoint.stepsLeft_le (w : WorkerPoint ι) : w.stepsLeft ≤ 4 := by
  cases w <;> simp [stepsLeft]

theorem ServePoint.stepsLeft_le (p : ServePoint) : p.stepsLeft ≤ 4 := by
  cases p with
  | draining p =>
    have hdrain := p.stepsLeft_le
    simp only [stepsLeft]
    omega
  | _ => simp [stepsLeft]

theorem ServePoint.joinsLeft_le (p : ServePoint) (left : Nat) : p.joinsLeft left ≤ left + 1 := by
  cases p <;> simp [joinsLeft]

theorem Pool.stepsLeft_le (p : Pool ι n) : p.stepsLeft ≤ 5 * n + 5 := by
  have hserve := p.server.point.stepsLeft_le
  have hjoins := p.server.point.joinsLeft_le (n - p.joined)
  have hworkers : total WorkerPoint.stepsLeft p.workers ≤ n * 4 := total_le fun i => (p.workers i).stepsLeft_le
  unfold Pool.stepsLeft
  omega

/-- What one step of the thread of `serve` takes from what is left, under a flag that is set. -/
theorem serve_pays {s t : Server} {d : ServeEvent} (h : ServeStep listener s d t)
    (hload : d.load? = none ∨ d.load? = some true) (left : Nat) :
    t.point.stepsLeft + t.point.joinsLeft left < s.point.stepsLeft + s.point.joinsLeft left := by
  cases h with
  | stop hp =>
    rcases hp with hp | hp
    · simp [hp, ServePoint.stepsLeft, ServePoint.joinsLeft]
    · simp [hp, ServePoint.stepsLeft, ServePoint.joinsLeft]
  | poll hp => simp [ServeEvent.load?] at hload
  | quiet hp => simp [hp, ServePoint.stepsLeft, ServePoint.joinsLeft]
  | ready hp => simp [hp, ServePoint.stepsLeft, ServePoint.joinsLeft]
  | noReadiness text hp => simp [hp, ServePoint.stepsLeft, ServePoint.joinsLeft]
  | drain hp => simp [ServeEvent.load?] at hload
  | joined panicked hp => simp [hp, ServePoint.stepsLeft, ServePoint.joinsLeft]
  | draining hp he hstep =>
    rw [hp]
    cases hstep with
    | goOn =>
      cases d with
      | load shutdown => cases he; simp [ServeEvent.load?] at hload
      | _ => cases he
    | failed e =>
      cases d with
      | load shutdown => cases he; simp [ServeEvent.load?] at hload
      | _ => cases he
    | _ => simp [DrainPoint.after, ServePoint.stepsLeft, ServePoint.joinsLeft, DrainPoint.stepsLeft]

theorem worker_pays {p q : Pool ι n} {i : Fin n} {v w : WorkerPoint ι} (hserver : q.server = p.server)
    (hjoined : q.joined = p.joined) (hworkers : q.workers = Function.update p.workers i w) (hw : p.workers i = v)
    (hless : w.stepsLeft < v.stepsLeft) : q.stepsLeft < p.stepsLeft := by
  have hmove := total_update WorkerPoint.stepsLeft p.workers i w
  rw [hw] at hmove
  unfold Pool.stepsLeft
  rw [hserver, hjoined, hworkers]
  omega

theorem pool_pays {p q : Pool ι n} {e : PoolEvent ι n} (h : PoolStep listener p e q) (hflag : p.shutdown = true)
    (hown : e ≠ .set) : q.stepsLeft < p.stepsLeft := by
  cases h with
  | set => exact absurd rfl hown
  | served hserve hanswers hstep =>
    have hload := hanswers.load hserve
    rw [hflag] at hload
    have hserver := serve_pays (Server.step_cases hstep) hload (n - p.joined)
    unfold Pool.stepsLeft
    rw [Pool.goOn_server, Pool.goOn_workers, Pool.goOn_joined, Pool.sent_workers, Pool.sent_joined]
    omega
  | @joined i hpoint hjoined hw =>
    have hlt := i.isLt
    simp only [Pool.stepsLeft, hpoint, ServePoint.joinsLeft, ServePoint.stepsLeft]
    omega
  | locked hw hfree => exact worker_pays rfl rfl rfl hw (by simp [WorkerPoint.stepsLeft])
  | received hw hrecv => exact worker_pays rfl rfl rfl hw (by simp [WorkerPoint.stepsLeft])
  | disconnected hw hrecv => exact worker_pays rfl rfl rfl hw (by simp [WorkerPoint.stepsLeft])
  | dropped hw hshutdown => exact worker_pays rfl rfl rfl hw (by simp [WorkerPoint.stepsLeft])
  | begun hw hshutdown => rw [hflag] at hshutdown; cases hshutdown
  | handled result hw => exact worker_pays rfl rfl rfl hw (by simp [WorkerPoint.stepsLeft])
  | panicked hw => exact worker_pays rfl rfl rfl hw (by simp [WorkerPoint.stepsLeft])

/-! ## The threads do not wait for each other for ever -/

/-- Both have taken their last step. -/
def Pool.Finished (p : Pool ι n) : Prop := (∃ r, p.server.point = .returned r) ∧ ∀ i, (p.workers i).over = 1

structure Wired (p : Pool ι n) : Prop where
  closed : p.channel.closed = p.server.point.senderGone
  joined : p.joined ≤ n
  /-- One worker at a time holds the lock. -/
  exclusive : ∀ i j, p.workers i = .receiving → p.workers j = .receiving → i = j
  inLoop : ∀ r, p.server.point ≠ .draining (.returned r)

@[simp] theorem Pool.sent_closed (p : Pool ι n) (e : PoolEvent ι n) : (p.sent e).channel.closed = p.channel.closed := by
  cases e with
  | arrive connection a => exact Channel.trySend_closed connection
  | _ => rfl

theorem Pool.goOn_closed {p : Pool ι n} {server : Server} (hstays : p.channel.closed = true → server.point.senderGone = true) :
    (p.goOn server).channel.closed = server.point.senderGone := by
  unfold Pool.goOn
  cases hgone : server.point.senderGone with
  | true => rfl
  | false =>
    rw [hgone] at hstays
    simpa using hstays

theorem ServeStep.inLoop {s t : Server} {d : ServeEvent} (h : ServeStep listener s d t) (r : Except String Unit) :
    t.point ≠ .draining (.returned r) := by
  cases h with
  | @draining p q d e hp he hstep =>
    cases q with
    | returned result => cases result <;> simp [DrainPoint.after]
    | _ => simp [DrainPoint.after]
  | _ => simp

/-- Leaving the lock, or staying away from it, keeps it exclusive. -/
theorem Wired.moved {p q : Pool ι n} {i : Fin n} {w : WorkerPoint ι} (h : Wired p) (hserver : q.server = p.server)
    (hjoined : q.joined = p.joined) (hworkers : q.workers = Function.update p.workers i w)
    (hclosed : q.channel.closed = p.channel.closed) (hw : w = .receiving → p.Unlocked) : Wired q where
  closed := by rw [hclosed, hserver, h.closed]
  joined := by rw [hjoined]; exact h.joined
  inLoop := by rw [hserver]; exact h.inLoop
  exclusive := by
    intro j k hj hk
    rw [hworkers] at hj hk
    by_cases hji : j = i
    · by_cases hki : k = i
      · rw [hji, hki]
      · subst hji
        rw [Function.update_self] at hj
        rw [Function.update_of_ne hki] at hk
        exact absurd hk (hw hj k)
    · rw [Function.update_of_ne hji] at hj
      by_cases hki : k = i
      · subst hki
        rw [Function.update_self] at hk
        exact absurd hj (hw hk j)
      · rw [Function.update_of_ne hki] at hk
        exact h.exclusive j k hj hk

theorem Channel.recv_closed {c u : Channel ι} {result : Option ι} (h : c.recv = some (result, u)) : u.closed = c.closed := by
  rcases Channel.recv_cases h with ⟨x, rest, -, -, rfl⟩ | ⟨-, -, -, rfl⟩
  · rfl
  · rfl

theorem Wired.step {p q : Pool ι n} {e : PoolEvent ι n} (h : Wired p) (hstep : PoolStep listener p e q) : Wired q := by
  cases hstep with
  | set => exact ⟨h.closed, h.joined, h.exclusive, h.inLoop⟩
  | served hserve hanswers hserver =>
    have hcases := Server.step_cases hserver
    refine ⟨Pool.goOn_closed ?_, ?_, ?_, ?_⟩
    · rw [Pool.sent_closed, h.closed]
      exact senderGone_stays hcases
    · simpa using h.joined
    · simpa using h.exclusive
    · exact hcases.inLoop
  | @joined i hpoint hjoined hw =>
    have hlt := i.isLt
    exact ⟨h.closed, by show p.joined + 1 ≤ n; omega, h.exclusive, h.inLoop⟩
  | locked hw hfree => exact h.moved rfl rfl rfl rfl fun _ => hfree
  | received hw hrecv => exact h.moved rfl rfl rfl (Channel.recv_closed hrecv) (by simp)
  | disconnected hw hrecv => exact h.moved rfl rfl rfl (Channel.recv_closed hrecv) (by simp)
  | dropped hw hshutdown => exact h.moved rfl rfl rfl rfl (by simp)
  | begun hw hshutdown => exact h.moved rfl rfl rfl rfl (by simp)
  | handled result hw => exact h.moved rfl rfl rfl rfl (by simp)
  | panicked hw => exact h.moved rfl rfl rfl rfl (by simp)

section
variable [DecidableEq ι]

theorem wired_run {p : Pool ι n} {es : List (PoolEvent ι n)} (hrun : runs (Pool.step listener) {} es = some p) : Wired p :=
  runs_keeps hrun ⟨rfl, Nat.zero_le _, by simp, by simp⟩ fun _ _ _ h hstep => h.step (Pool.step_cases hstep)

/-- What the cases list can be done. -/
theorem Pool.step_of {p q : Pool ι n} {e : PoolEvent ι n} (h : PoolStep listener p e q) : p.step listener e = some q := by
  cases h with
  | set => rfl
  | served hserve hanswers hstep =>
    cases e with
    | load shutdown =>
      cases hserve
      simp only [Pool.step, Pool.Answers] at hanswers ⊢
      rw [if_pos hanswers, hstep]
      rfl
    | waitReadable result =>
      cases hserve
      simp only [Pool.step, hstep]
      rfl
    | arrive connection a =>
      cases hserve
      simp only [Pool.step, Pool.Answers] at hanswers ⊢
      rw [if_pos hanswers, hstep]
      rfl
    | acceptFails a =>
      cases hserve
      simp only [Pool.step, Pool.Answers] at hanswers ⊢
      rw [if_neg hanswers, hstep]
      rfl
    | joinPanicked i =>
      cases hserve
      simp only [Pool.step, Pool.Answers] at hanswers ⊢
      rw [if_pos hanswers, hstep]
      rfl
    | joinedAll =>
      cases hserve
      simp only [Pool.step, Pool.Answers] at hanswers ⊢
      rw [if_pos hanswers, hstep]
      rfl
    | set => cases hserve
    | join i => cases hserve
    | worker i e => cases hserve
  | joined hpoint hjoined hw =>
    simp only [Pool.step, hpoint]
    rw [if_pos ⟨hjoined, hw⟩]
  | locked hw hfree => simp [Pool.step, WorkerPoint.step, Pool.workerStep, hw, hfree]
  | received hw hrecv => simp [Pool.step, WorkerPoint.step, Pool.workerStep, hw, hrecv]
  | disconnected hw hrecv => simp [Pool.step, WorkerPoint.step, Pool.workerStep, hw, hrecv]
  | dropped hw hshutdown => simp [Pool.step, WorkerPoint.step, Pool.workerStep, hw, hshutdown]
  | begun hw hshutdown => simp [Pool.step, WorkerPoint.step, Pool.workerStep, hw, hshutdown]
  | handled result hw => simp [Pool.step, WorkerPoint.step, Pool.workerStep, hw]
  | panicked hw => simp [Pool.step, WorkerPoint.step, Pool.workerStep, hw]

/-- A step that nobody outside has to make possible: no connection arrives, and none fails. -/
def PoolEvent.Calm : PoolEvent ι n → Prop
  | .set | .arrive _ _ | .worker _ (.panic _) => False
  | .worker _ (.handled _ result) => result = .ok ()
  | _ => True

/-- A worker that waits at the channel goes on, if there is something for it. -/
theorem receiving_step (listener : Listener) {p : Pool ι n} {i : Fin n} (hw : p.workers i = .receiving)
    (hchannel : p.channel.queue ≠ [] ∨ p.channel.closed = true) :
    ∃ result q, p.step listener (.worker i (.recv result)) = some q := by
  cases hqueue : p.channel.queue with
  | cons x rest => exact ⟨_, _, Pool.step_of (.received hw (Channel.recv_of_queue hqueue))⟩
  | nil =>
    have hclosed : p.channel.closed = true := hchannel.resolve_left (absurd hqueue)
    exact ⟨_, _, Pool.step_of (.disconnected hw (Channel.recv_of_closed hqueue hclosed))⟩

/-- Where one worker has not ended, some worker goes on. -/
theorem worker_progress (listener : Listener) {p : Pool ι n} {i : Fin n} (hlive : (p.workers i).over = 0)
    (hchannel : p.channel.queue ≠ [] ∨ p.channel.closed = true) :
    ∃ j e q, (PoolEvent.worker j e).Calm ∧ p.step listener (.worker j e) = some q := by
  cases hw : p.workers i with
  | locking =>
    by_cases hfree : p.Unlocked
    · exact ⟨i, .lock, _, trivial, Pool.step_of (.locked hw hfree)⟩
    · unfold Pool.Unlocked at hfree
      push Not at hfree
      obtain ⟨j, hj⟩ := hfree
      obtain ⟨result, q, hq⟩ := receiving_step listener hj hchannel
      exact ⟨j, .recv result, q, trivial, hq⟩
  | receiving =>
    obtain ⟨result, q, hq⟩ := receiving_step listener hw hchannel
    exact ⟨i, .recv result, q, trivial, hq⟩
  | received connection =>
    cases hflag : p.shutdown with
    | true => exact ⟨i, .load connection true, _, trivial, Pool.step_of (.dropped hw hflag)⟩
    | false => exact ⟨i, .load connection false, _, trivial, Pool.step_of (.begun hw hflag)⟩
  | handling connection => exact ⟨i, .handled connection (.ok ()), _, rfl, Pool.step_of (.handled (.ok ()) hw)⟩
  | ended => rw [hw] at hlive; cases hlive
  | panicked => rw [hw] at hlive; cases hlive

/-- Accepting would block. -/
def Arrival.none : Arrival := ⟨.error ⟨.wouldBlock, "would block"⟩, .ok (), .ok (), .ok (), .ok (), false⟩

theorem accept_none : listener.accept .none = .error ⟨.wouldBlock, "would block"⟩ := accept_of_error rfl

/-- In its loop the thread of `serve` waits for nobody. -/
theorem loop_progress {p : Pool ι n} (h : Wired p) (hin : p.server.point.senderGone = false) :
    ∃ e q, e.Calm ∧ p.step listener e = some q := by
  have hload : ∀ server, p.server.step listener (.load p.shutdown) = some server →
      ∃ e q, e.Calm ∧ p.step listener e = some q := fun server hstep =>
    ⟨.load p.shutdown, _, trivial, Pool.step_of (.served rfl rfl hstep)⟩
  have hready : ∀ server, p.server.step listener (.waitReadable (.ok false)) = some server →
      ∃ e q, e.Calm ∧ p.step listener e = some q := fun server hstep =>
    ⟨.waitReadable (.ok false), _, trivial, Pool.step_of (.served rfl trivial hstep)⟩
  have haccept : ∀ server, p.server.step listener (.arrival .none) = some server →
      ∃ e q, e.Calm ∧ p.step listener e = some q := fun server hstep =>
    ⟨.acceptFails .none, _, trivial, Pool.step_of (.served rfl (by simp [Pool.Answers, accept_none]) hstep)⟩
  cases hpoint : p.server.point with
  | test => exact hload _ (by simp only [Server.step, hpoint]; rfl)
  | retest => exact hload _ (by simp only [Server.step, hpoint]; rfl)
  | waiting => exact hready _ (by simp only [Server.step, hpoint]; rfl)
  | draining point =>
    cases point with
    | test => exact hload _ (by simp only [Server.step, hpoint]; rfl)
    | guard e => exact hload _ (by simp only [Server.step, hpoint]; rfl)
    | readiness => exact hready _ (by simp only [Server.step, hpoint]; rfl)
    | accepting => exact haccept _ (by simp only [Server.step, hpoint, ServeEvent.drain?, accept_none]; rfl)
    | returned r => exact absurd hpoint (h.inLoop r)
  | joining => rw [hpoint] at hin; cases hin
  | returned r => rw [hpoint] at hin; cases hin

omit [DecidableEq ι] in
theorem over_of_ne_zero {w : WorkerPoint ι} (h : w.over ≠ 0) : w = .ended ∨ w = .panicked := by
  cases w with
  | ended => exact Or.inl rfl
  | panicked => exact Or.inr rfl
  | _ => exact absurd rfl h

/-- **No deadlock.** -/
theorem pool_progress (listener : Listener) {p : Pool ι n} (h : Wired p) (hnot : ¬ p.Finished) :
    ∃ e q, e.Calm ∧ p.step listener e = some q := by
  cases hgone : p.server.point.senderGone with
  | false => exact loop_progress h hgone
  | true =>
    have hclosed : p.channel.queue ≠ [] ∨ p.channel.closed = true := Or.inr (h.closed.trans hgone)
    by_cases hlive : ∃ i, (p.workers i).over = 0
    · obtain ⟨i, hi⟩ := hlive
      obtain ⟨j, e, q, hcalm, hq⟩ := worker_progress listener hi hclosed
      exact ⟨_, q, hcalm, hq⟩
    · -- all workers have ended: the thread of `serve` joins them
      push Not at hlive
      cases hpoint : p.server.point with
      | joining =>
        by_cases hall : p.joined = n
        · exact ⟨.joinedAll, _, trivial, Pool.step_of (.served rfl hall (by simp only [Server.step, hpoint]; rfl))⟩
        · have hlt : p.joined < n := Nat.lt_of_le_of_ne h.joined hall
          rcases over_of_ne_zero (hlive ⟨p.joined, hlt⟩) with hended | hpanicked
          · exact ⟨.join ⟨p.joined, hlt⟩, _, trivial, Pool.step_of (.joined hpoint rfl hended)⟩
          · exact ⟨.joinPanicked ⟨p.joined, hlt⟩, _, trivial,
              Pool.step_of (.served rfl ⟨rfl, hpanicked⟩ (by simp only [Server.step, hpoint]; rfl))⟩
      | returned r =>
        refine absurd ⟨⟨r, hpoint⟩, fun i => ?_⟩ hnot
        rcases over_of_ne_zero (hlive i) with hw | hw <;> rw [hw] <;> rfl
      | _ => rw [hpoint] at hgone; cases hgone

omit [DecidableEq ι] in
theorem PoolEvent.Calm.ne_set {e : PoolEvent ι n} (h : e.Calm) : e ≠ .set := by
  rintro rfl
  exact h

/-! ## Whole runs -/

def PoolEvent.own : PoolEvent ι n → Bool
  | .set => false
  | _ => true

omit [DecidableEq ι] in
theorem shutdown_stays {p q : Pool ι n} {e : PoolEvent ι n} (h : PoolStep listener p e q) (hset : p.shutdown = true) :
    q.shutdown = true := by
  cases h with
  | set => rfl
  | served _ _ _ => simpa using hset
  | _ => exact hset

/-- Under a flag that is set, what is left only shrinks. -/
theorem shutdown_runs {p q : Pool ι n} {es : List (PoolEvent ι n)} (hrun : runs (Pool.step listener) p es = some q)
    (hflag : p.shutdown = true) : q.shutdown = true ∧ es.countP PoolEvent.own + q.stepsLeft ≤ p.stepsLeft := by
  refine runs_pays (fun p => p.shutdown = true) PoolEvent.own Pool.stepsLeft ?_ hrun hflag
  intro t e u ht hstep
  have hcases := Pool.step_cases hstep
  refine ⟨shutdown_stays hcases ht, ?_⟩
  cases e with
  | set =>
    cases hcases with
    | set => exact Nat.le_of_eq (Nat.zero_add _)
    | served hserve _ _ => cases hserve
  | _ =>
    have hpay := pool_pays hcases ht (by simp)
    simp only [PoolEvent.own, if_true]
    omega

/-- What a run that has been asked to end still does. -/
structure Stopping (listener : Listener) (es : List (PoolEvent ι n)) (p : Pool ι n) : Prop where
  /-- Of its own steps, there are as many at most. -/
  bounded : es.countP PoolEvent.own ≤ 5 * n + 5
  /-- It can be brought to its end. -/
  finishes : ∃ es' q, runs (Pool.step listener) p es' = some q ∧ q.Finished ∧ es'.length ≤ 5 * n + 5

/-- **Serving ends, and is never stuck.** In every interleaving, until the thread of `serve` and all
workers have taken their last step, one of them can go on; and once the flag is set they take
`5 * n + 5` more steps at most. -/
theorem serving_ends {p : Pool ι n} {es : List (PoolEvent ι n)} (hrun : runs (Pool.step listener) {} es = some p) :
    (¬ p.Finished → ∃ e q, e ≠ .set ∧ p.step listener e = some q) ∧
      ∀ es₁ es₂, es = es₁ ++ .set :: es₂ → Stopping listener es₂ p := by
  refine ⟨fun hnot => ?_, ?_⟩
  · obtain ⟨e, q, hcalm, hq⟩ := pool_progress listener (wired_run hrun) hnot
    exact ⟨e, q, hcalm.ne_set, hq⟩
  rintro es₁ es₂ rfl
  obtain ⟨q, hq, hrest⟩ := runs_append.1 hrun
  obtain ⟨r, hset, hrest⟩ := runs_cons.1 hrest
  obtain rfl := Option.some.inj hset
  obtain ⟨hflag, hle⟩ := shutdown_runs hrest rfl
  refine ⟨?_, ?_⟩
  · have hbound := Pool.stepsLeft_le { q with shutdown := true }
    omega
  · have hbound := p.stepsLeft_le
    obtain ⟨es', u, hrun', hfinished, hlength⟩ := completes (fun p => Wired p ∧ p.shutdown = true) Pool.Finished
      Pool.stepsLeft (by
        rintro s ⟨hwired, hshutdown⟩ hnot
        obtain ⟨e, t, hcalm, hstep⟩ := pool_progress listener hwired hnot
        have hcases := Pool.step_cases hstep
        exact ⟨e, t, hstep, ⟨hwired.step hcases, shutdown_stays hcases hshutdown⟩,
          pool_pays hcases hshutdown hcalm.ne_set⟩) p ⟨wired_run hrun, hflag⟩
    exact ⟨es', u, hrun', hfinished, by omega⟩

/-! ## No connection waits beside an idle worker -/

/-- Waiting for a connection. -/
def WorkerPoint.Idle (w : WorkerPoint ι) : Prop := w = .locking ∨ w = .receiving

/-- A worker at the channel takes the first connection. -/
theorem receives (listener : Listener) {p : Pool ι n} {i : Fin n} {c : ι} {rest : List ι} (hw : p.workers i = .receiving)
    (hqueue : p.channel.queue = c :: rest) : ∃ q, p.step listener (.worker i (.recv (some c))) = some q ∧
      q.workers i = .received c ∧ q.channel.queue = rest := by
  refine ⟨_, Pool.step_of (.received hw (Channel.recv_of_queue hqueue)), ?_, rfl⟩
  exact Function.update_self ..

/-- **No wake-up is lost.** One worker at a time waits at the channel; and wherever a connection waits and
a worker is idle, a worker can take the first connection within two steps of its own, before any other
thread takes a step. -/
theorem idle_worker_takes {p : Pool ι n} {es : List (PoolEvent ι n)} (hrun : runs (Pool.step listener) {} es = some p) :
    (∀ i j, p.workers i = .receiving → p.workers j = .receiving → i = j) ∧
      ∀ c rest, p.channel.queue = c :: rest → (∃ i, (p.workers i).Idle) →
        ∃ (i : Fin n) (steps : List (WorkerEvent ι)) (q : Pool ι n), steps.length ≤ 2 ∧
          runs (Pool.step listener) p (steps.map (PoolEvent.worker i)) = some q ∧ q.workers i = .received c ∧
            q.channel.queue = rest := by
  refine ⟨(wired_run hrun).exclusive, fun c rest hqueue hidle => ?_⟩
  by_cases hfree : p.Unlocked
  · obtain ⟨i, hw | hw⟩ := hidle
    · obtain ⟨q, hq, hreceived, hrest⟩ := receives listener (p := p.move i .receiving) (i := i)
        (Function.update_self ..) hqueue
      refine ⟨i, [.lock, .recv (some c)], q, by simp, ?_, hreceived, hrest⟩
      exact runs_cons.2 ⟨_, Pool.step_of (.locked hw hfree), runs_cons.2 ⟨q, hq, rfl⟩⟩
    · exact absurd hw (hfree i)
  · unfold Pool.Unlocked at hfree
    push Not at hfree
    obtain ⟨i, hw⟩ := hfree
    obtain ⟨q, hq, hreceived, hrest⟩ := receives listener hw hqueue
    exact ⟨i, [.recv (some c)], q, by simp, runs_cons.2 ⟨q, hq, rfl⟩, hreceived, hrest⟩

/-! ## What a return says -/

variable (listener) in
/-- Why the thread of `serve` returned an error. -/
inductive Fault (es : List (PoolEvent ι n)) (p : Pool ι n) : String → Prop
  | panicked {i : Fin n} (hw : p.workers i = .panicked) (hset : p.shutdown = true) : Fault es p "milter worker thread panicked"
  | readiness {text : String} (h : .waitReadable (.error text) ∈ es) : Fault es p (readinessFailed text)
  | listener {a : Arrival} {e : AcceptError} (h : .acceptFails a ∈ es) (haccept : listener.accept a = .error e)
      (hkind : e.kind ≠ .wouldBlock) : Fault es p (listenerFailed e)

variable (listener) in
/-- What the thread of `serve` knows where it stands. -/
def Knows (es : List (PoolEvent ι n)) (p : Pool ι n) : ServePoint → Prop
  | .joining => p.shutdown = true
  | .draining (.guard e) => ∃ a, .acceptFails a ∈ es ∧ listener.accept a = .error e ∧ e.kind ≠ .wouldBlock
  | .returned (.ok ()) => p.shutdown = true ∧ ∀ i, p.workers i = .ended
  | .returned (.error text) => Fault listener es p text
  | _ => True

variable (listener) in
structure Returning (es : List (PoolEvent ι n)) (p : Pool ι n) : Prop where
  knows : Knows listener es p p.server.point
  joined : ∀ i : Fin n, i < p.joined → p.workers i = .ended

omit [DecidableEq ι] in
/-- Whoever has ended stays where it is. -/
theorem over_stays {p q : Pool ι n} {e : PoolEvent ι n} (h : PoolStep listener p e q) (i : Fin n)
    (hover : p.workers i = .ended ∨ p.workers i = .panicked) : q.workers i = p.workers i := by
  have hmoved : ∀ (j : Fin n) (v w : WorkerPoint ι), p.workers j = v → v ≠ .ended → v ≠ .panicked →
      Function.update p.workers j w i = p.workers i := by
    intro j v w hv hended hpanicked
    apply Function.update_of_ne
    rintro rfl
    rcases hover with hw | hw
    · exact hended (hv.symm.trans hw)
    · exact hpanicked (hv.symm.trans hw)
  cases h with
  | set => rfl
  | served _ _ _ => simp
  | joined _ _ _ => rfl
  | locked hw _ => exact hmoved _ _ _ hw (by simp) (by simp)
  | received hw _ => exact hmoved _ _ _ hw (by simp) (by simp)
  | disconnected hw _ => exact hmoved _ _ _ hw (by simp) (by simp)
  | dropped hw _ => exact hmoved _ _ _ hw (by simp) (by simp)
  | begun hw _ => exact hmoved _ _ _ hw (by simp) (by simp)
  | handled _ hw => exact hmoved _ _ _ hw (by simp) (by simp)
  | panicked hw => exact hmoved _ _ _ hw (by simp) (by simp)

omit [DecidableEq ι] in
theorem Fault.step {p q : Pool ι n} {es : List (PoolEvent ι n)} {e : PoolEvent ι n} {text : String}
    (h : Fault listener es p text) (hstep : PoolStep listener p e q) : Fault listener (es ++ [e]) q text := by
  cases h with
  | panicked hw hset => exact .panicked ((over_stays hstep _ (Or.inr hw)).trans hw) (shutdown_stays hstep hset)
  | readiness hmem => exact .readiness (List.mem_append_left _ hmem)
  | listener hmem haccept hkind => exact .listener (List.mem_append_left _ hmem) haccept hkind

omit [DecidableEq ι] in
/-- What is known stays known while the thread stays where it is. -/
theorem Knows.step {p q : Pool ι n} {es : List (PoolEvent ι n)} {e : PoolEvent ι n} {point : ServePoint}
    (h : Knows listener es p point) (hstep : PoolStep listener p e q) : Knows listener (es ++ [e]) q point := by
  unfold Knows at h ⊢
  split at h
  · exact shutdown_stays hstep h
  · obtain ⟨a, hmem, haccept, hkind⟩ := h
    exact ⟨a, List.mem_append_left _ hmem, haccept, hkind⟩
  · exact ⟨shutdown_stays hstep h.1, fun i => (over_stays hstep i (Or.inl (h.2 i))).trans (h.2 i)⟩
  · exact h.step hstep
  · trivial

omit [DecidableEq ι] in
/-- A step of the thread of `serve` tells it what it comes to know. -/
theorem Returning.served {p : Pool ι n} {es : List (PoolEvent ι n)} {e : PoolEvent ι n} {d : ServeEvent} {server : Server}
    (h : Returning listener es p) (hserve : e.serve? = some d) (hanswers : p.Answers listener e)
    (hstep : ServeStep listener p.server d server) : Knows listener (es ++ [e]) p server.point := by
  have hknows := h.knows
  have hmem : e ∈ es ++ [e] := by simp
  cases hstep with
  | stop hp =>
    have hload := hanswers.load hserve
    simp only [ServeEvent.load?, reduceCtorEq, Option.some.injEq, false_or] at hload
    exact hload.symm
  | poll hp => trivial
  | quiet hp => trivial
  | ready hp => trivial
  | drain hp => trivial
  | noReadiness text hp =>
    cases e with
    | waitReadable result => cases hserve; exact .readiness hmem
    | _ => cases hserve
  | joined panicked hp =>
    rw [hp] at hknows
    cases e with
    | joinPanicked i => cases hserve; exact .panicked hanswers.2 hknows
    | joinedAll =>
      cases hserve
      refine ⟨hknows, fun i => h.joined i ?_⟩
      rw [show p.joined = n from hanswers]
      exact i.isLt
    | _ => cases hserve
  | draining hp he hdrain =>
    rw [hp] at hknows
    cases hdrain with
    | refused hkind =>
      cases e with
      | acceptFails a =>
        cases hserve
        exact ⟨a, hmem, DrainEvent.accept.inj (Option.some.inj he), hkind⟩
      | arrive connection a =>
        cases hserve
        have haccept := DrainEvent.accept.inj (Option.some.inj he)
        rw [hanswers.1] at haccept
        cases haccept
      | _ => cases hserve <;> cases he
    | noReadiness text =>
      cases e with
      | waitReadable result => cases hserve; cases he; exact .readiness hmem
      | _ => cases hserve <;> cases he
    | failed error =>
      obtain ⟨a, hfails, haccept, hkind⟩ := hknows
      exact .listener (List.mem_append_left _ hfails) haccept hkind
    | _ => trivial

omit [DecidableEq ι] in
theorem Knows.congr {p q : Pool ι n} {es : List (PoolEvent ι n)} {point : ServePoint} (h : Knows listener es p point)
    (hworkers : q.workers = p.workers) (hshutdown : q.shutdown = p.shutdown) : Knows listener es q point := by
  unfold Knows at h ⊢
  split at h
  · rw [hshutdown]
    exact h
  · exact h
  · rw [hshutdown, hworkers]
    exact h
  · cases h with
    | panicked hw hset => exact .panicked (hworkers ▸ hw) (hshutdown ▸ hset)
    | readiness hmem => exact .readiness hmem
    | listener hmem haccept hkind => exact .listener hmem haccept hkind
  · trivial

omit [DecidableEq ι] in
theorem Returning.step {p q : Pool ι n} {es : List (PoolEvent ι n)} {e : PoolEvent ι n} (h : Returning listener es p)
    (hstep : PoolStep listener p e q) : Returning listener (es ++ [e]) q := by
  have hstays : ∀ i : Fin n, i < p.joined → q.workers i = .ended := fun i hi =>
    (over_stays hstep i (Or.inl (h.joined i hi))).trans (h.joined i hi)
  have hknows := h.knows.step hstep
  cases hstep with
  | served hserve hanswers hserver =>
    refine ⟨(h.served hserve hanswers (Server.step_cases hserver)).congr ?_ ?_, ?_⟩
    · simp
    · simp
    · simpa using hstays
  | @joined i hpoint hjoined hw =>
    refine ⟨hknows, fun j hj => ?_⟩
    by_cases hlast : j = i
    · exact hlast ▸ hw
    · refine hstays j ?_
      have hne : (j : Nat) ≠ i := fun heq => hlast (Fin.ext heq)
      have hlt : (j : Nat) < p.joined + 1 := hj
      omega
  | _ => exact ⟨hknows, hstays⟩

/-- The run: by induction on the events. -/
theorem returning_run {p : Pool ι n} {es : List (PoolEvent ι n)} (hrun : runs (Pool.step listener) {} es = some p) :
    Returning listener es p :=
  runs_history hrun ⟨trivial, fun _ hi => absurd hi (Nat.not_lt_zero _)⟩ fun _ _ _ _ h hstep => h.step (Pool.step_cases hstep)

/-- **What a return of `serve` says** once the listener is bound (the errors of `Listener.bind` come before any
thread starts). If it returns without an error, the flag was set, every worker has ended by itself, and every
connection that was let in was handled to its end, or was dropped after the flag was set, or still waits: none
was lost. If it returns an error, that is a failed readiness check, a failed accept that was not `WouldBlock`,
or, after the flag was set, a worker that panicked. -/
theorem return_tells {p : Pool ι n} {es : List (PoolEvent ι n)} (hrun : runs (Pool.step listener) {} es = some p) :
    (p.server.point = .returned (.ok ()) → .set ∈ es ∧ (∀ i, p.workers i = .ended) ∧
      ∀ c, (es.filterMap PoolEvent.entered?).count c = p.channel.queue.count c +
        (es.filterMap PoolEvent.handled?).count c + (es.filterMap PoolEvent.dropped?).count c) ∧
      ∀ text, p.server.point = .returned (.error text) → Fault listener es p text := by
  have hknows := (returning_run hrun).knows
  refine ⟨fun hok => ?_, fun text herror => ?_⟩
  · rw [hok] at hknows
    obtain ⟨hflag, hended⟩ := hknows
    refine ⟨set_of_shutdown hrun hflag, hended, fun c => ?_⟩
    have hhand : total (WorkerPoint.holds c) p.workers = 0 :=
      total_eq_zero.2 fun i => by rw [hended i]; rfl
    have hbroken : total WorkerPoint.broken p.workers = 0 :=
      total_eq_zero.2 fun i => by rw [hended i]; rfl
    have htally := tally_run hrun
    have hlost : (es.filterMap PoolEvent.lost?).count c ≤ 0 :=
      List.count_le_length.trans (htally.lost.trans hbroken).le
    have hreceived := htally.hand c
    rw [htally.fifo.order, List.count_append]
    omega
  · rw [herror] at hknows
    exact hknows

end

end

end

theorem serving_ends_example : ∃ p, p.server.point = .returned (.ok ()) ∧ Stopping .unix exampleStopping p :=
  ⟨_, rfl, (serving_ends
    (show runs (Pool.step .unix) {} (exampleServing ++ .set :: exampleStopping) = some _ from rfl)).2 _ _ rfl⟩

/-- The worker is idle, two connections wait. -/
theorem idle_worker_takes_example : ∃ (p : Pool Nat 1) (i : Fin 1) (steps : List (WorkerEvent Nat)) (q : Pool Nat 1),
    steps.length ≤ 2 ∧ runs (Pool.step .unix) p (steps.map (PoolEvent.worker i)) = some q ∧
      q.workers i = .received 2 ∧ q.channel.queue = [3] :=
  ⟨_, (idle_worker_takes
    (show runs (Pool.step .unix) {} (exampleServing ++ [.worker 0 (.handled 1 (.ok ()))]) = some _ from rfl)).2
      2 [3] rfl ⟨0, Or.inl rfl⟩⟩

/-- The run comes to its end, with one connection still in the channel. -/
theorem return_tells_example : ∃ p : Pool Nat 1, p.server.point = .returned (.ok ()) ∧ ∀ i, p.workers i = .ended := by
  refine ⟨_, rfl, ((return_tells
    (show runs (Pool.step .unix) {} (exampleServing ++ .set :: exampleStopping) = some _ from rfl)).1 rfl).2.1⟩

end DkimLite
