import DkimLite.DaemonSystem

/-!
# The connections of the daemon

A connection that a worker handles runs by itself (`Heard`): its packets come one after the other, each
under the configuration that was active when it came, and one worker handles them all (`OneWorker`).
`daemon_signs` follows a signature from the frame in which it is sent back to the files its
configuration was read from; `exit_tells` is what the result of the daemon means.
-/

namespace DkimLite
open Rust Text

section
variable {ι Key : Type} [DecidableEq ι] {n : Nat} {listener : Listener} {debugStr : List Char → String} {path : Bytes}
  {ssl : OpenSsl Key} {keys : KeyFormat Key} {initial : RuntimeConfig Key} {files : Files} {d u : Daemon ι Key n}
  {es : List (DaemonEvent ι Key n)} {e : DaemonEvent ι Key n}

/-! ## A connection by itself -/

/-- The packets of connection `c`. -/
def DaemonEvent.packetOf? (c : ι) : DaemonEvent ι Key n → Option (Env Key × Bytes)
  | .packet _ connection env bytes => if connection = c then some (env, bytes) else none
  | _ => none

variable (listener debugStr path ssl keys initial files) in
/-- `h` is what connection `c` heard: its packets, each under the configuration that was active then. -/
structure Heard (c : ι) (es : List (DaemonEvent ι Key n)) (h : List (Event Key)) : Prop where
  packets : h.map (fun e => (e.moment.env, e.packet)) = es.filterMap (DaemonEvent.packetOf? c)
  moments : ∀ h₁ e h₂, h = h₁ ++ e :: h₂ → ∃ es₁ i es₂ t, es = es₁ ++ .packet i c e.moment.env e.packet :: es₂ ∧
    runs (Daemon.step listener debugStr path ssl keys) (Daemon.start initial files) es₁ = some t ∧
      e.moment.active = some t.monitor.active ∧ t.conns c = runOf h₁ ∧
        h₂.map (fun e => (e.moment.env, e.packet)) = es₂.filterMap (DaemonEvent.packetOf? c)

/-- An event that is no packet of `c`. -/
theorem Heard.idle {c : ι} {h : List (Event Key)} (hheard : Heard listener debugStr path ssl keys initial files c es h)
    (hnone : e.packetOf? c = none) : Heard listener debugStr path ssl keys initial files c (es ++ [e]) h where
  packets := by rw [filterMap_snoc, hnone, hheard.packets, Option.toList_none, List.append_nil]
  moments := by
    intro h₁ x h₂ heq
    obtain ⟨es₁, i, es₂, t, hes, hrun, hactive, hconn, hlater⟩ := hheard.moments h₁ x h₂ heq
    refine ⟨es₁, i, es₂ ++ [e], t, by rw [hes, List.append_assoc, List.cons_append], hrun, hactive, hconn, ?_⟩
    rw [filterMap_snoc, hnone, hlater, Option.toList_none, List.append_nil]

/-- One packet more of `c`. -/
theorem Heard.packet {c : ι} {h : List (Event Key)} {i : Fin n} {env : Env Key} {bytes : Bytes}
    (hheard : Heard listener debugStr path ssl keys initial files c es h)
    (hrun : runs (Daemon.step listener debugStr path ssl keys) (Daemon.start initial files) es = some d)
    (hconn : d.conns c = runOf h) :
    Heard listener debugStr path ssl keys initial files c (es ++ [.packet i c env bytes])
      (h ++ [⟨⟨some d.monitor.active, env⟩, bytes⟩]) := by
  have hsome : (DaemonEvent.packet i c env bytes : DaemonEvent ι Key n).packetOf? c = some (env, bytes) := if_pos rfl
  refine ⟨?_, fun h₁ x h₂ heq => ?_⟩
  · rw [filterMap_snoc, hsome, List.map_append, hheard.packets]
    rfl
  · rcases List.eq_nil_or_concat h₂ with rfl | ⟨h₃, y, rfl⟩
    · -- the new packet
      obtain ⟨rfl, hx⟩ := List.append_inj' heq rfl
      obtain rfl := List.head_eq_of_cons_eq hx
      exact ⟨es, i, [], d, rfl, hrun, rfl, hconn, rfl⟩
    · rw [List.concat_eq_append, ← List.cons_append, ← List.append_assoc] at heq
      obtain ⟨hbefore, hy⟩ := List.append_inj' heq rfl
      obtain rfl := List.head_eq_of_cons_eq hy
      obtain ⟨es₁, j, es₂, t, hes, ht, hactive, hconn', hlater⟩ := hheard.moments h₁ x h₃ hbefore
      refine ⟨es₁, j, es₂ ++ [.packet i c env bytes], t, by rw [hes, List.append_assoc, List.cons_append], ht, hactive,
        hconn', ?_⟩
      rw [filterMap_snoc, hsome, List.concat_eq_append, List.map_append, hlater]
      rfl

/-- Where a packet leaves its connection. -/
theorem conns_packet {c : ι} {h : List (Event Key)} {i : Fin n} {env : Env Key} {bytes : Bytes}
    (hstep : d.step listener debugStr path ssl keys (.packet i c env bytes) = some u) (hconn : d.conns c = runOf h) :
    u.conns c = runOf (h ++ [⟨⟨some d.monitor.active, env⟩, bytes⟩]) := by
  cases Daemon.step_cases hstep with
  | packet hlive hw => simp only [Daemon.receive, if_true, hconn, receive_runOf]

/-- What is heard from there on: by induction on the events. -/
theorem Heard.more {c : ι} {h : List (Event Key)} {es' : List (DaemonEvent ι Key n)}
    (hheard : Heard listener debugStr path ssl keys initial files c es h)
    (hrun : runs (Daemon.step listener debugStr path ssl keys) (Daemon.start initial files) es = some d)
    (hconn : d.conns c = runOf h) (hmore : runs (Daemon.step listener debugStr path ssl keys) d es' = some u) :
    ∃ more, u.conns c = runOf (h ++ more) ∧ Heard listener debugStr path ssl keys initial files c (es ++ es') (h ++ more) := by
  refine (runs_history (P := fun es' u => runs (Daemon.step listener debugStr path ssl keys) (Daemon.start initial files)
    (es ++ es') = some u ∧ ∃ more, u.conns c = runOf (h ++ more) ∧
      Heard listener debugStr path ssl keys initial files c (es ++ es') (h ++ more)) hmore ?_ ?_).2
  · exact ⟨by rwa [List.append_nil], [], by rwa [List.append_nil], by rwa [List.append_nil, List.append_nil]⟩
  · rintro es' t e u ⟨ht, more, hconn, hheard⟩ hstep
    rw [← List.append_assoc]
    refine ⟨runs_snoc.2 ⟨t, ht, hstep⟩, ?_⟩
    cases Daemon.step_cases hstep with
    | @packet i connection env bytes hlive hw =>
      by_cases hsame : connection = c
      · subst hsame
        refine ⟨more ++ [⟨⟨some t.monitor.active, env⟩, bytes⟩], ?_, ?_⟩
        · rw [← List.append_assoc]
          exact conns_packet hstep hconn
        · rw [← List.append_assoc]
          exact hheard.packet ht hconn
      · refine ⟨more, ?_, hheard.idle (if_neg hsame)⟩
        simp only [Daemon.receive, if_neg (Ne.symm hsame), hconn]
    | _ => exact ⟨more, hconn, hheard.idle rfl⟩

theorem heard_run
    (hrun : runs (Daemon.step listener debugStr path ssl keys) (Daemon.start initial files) es = some d) (c : ι) :
    ∃ h, d.conns c = runOf h ∧ Heard listener debugStr path ssl keys initial files c es h := by
  have hnothing : Heard listener debugStr path ssl keys initial files c ([] : List (DaemonEvent ι Key n)) [] :=
    ⟨rfl, by simp⟩
  exact hnothing.more rfl rfl hrun

/-! ## One worker for each connection -/

omit [DecidableEq ι] in
/-- What one more event adds to a record of the pool's events. -/
theorem pools_snoc {α : Type} (f : PoolEvent ι n → Option α) (es : List (DaemonEvent ι Key n)) (e : DaemonEvent ι Key n) :
    ((es ++ [e]).filterMap DaemonEvent.pool?).filterMap f =
      (es.filterMap DaemonEvent.pool?).filterMap f ++ (e.pool?.bind f).toList := by
  rw [List.filterMap_filterMap, List.filterMap_filterMap]
  exact filterMap_snoc (fun e => e.pool?.bind f) es e

/-- The connections let in are distinct: each was new when it was accepted. -/
theorem entered_once
    (hrun : runs (Daemon.step listener debugStr path ssl keys) (Daemon.start initial files) es = some d) :
    ((es.filterMap DaemonEvent.pool?).filterMap PoolEvent.entered?).Nodup ∧
      ∀ c ∈ (es.filterMap DaemonEvent.pool?).filterMap PoolEvent.entered?, c ∈ d.seen := by
  refine runs_history (P := fun es d => ((es.filterMap DaemonEvent.pool?).filterMap PoolEvent.entered?).Nodup ∧
    ∀ c ∈ (es.filterMap DaemonEvent.pool?).filterMap PoolEvent.entered?, c ∈ d.seen) hrun ?_ ?_
  · exact ⟨List.nodup_nil, fun c hc => absurd hc List.not_mem_nil⟩
  rintro es t e u ⟨hnodup, hseen⟩ hstep
  rw [pools_snoc]
  have hnone : e.pool?.bind PoolEvent.entered? = none → (∀ c, c ∈ t.seen → c ∈ u.seen) →
      ((es.filterMap DaemonEvent.pool?).filterMap PoolEvent.entered? ++ (e.pool?.bind PoolEvent.entered?).toList).Nodup ∧
        ∀ c ∈ (es.filterMap DaemonEvent.pool?).filterMap PoolEvent.entered? ++ (e.pool?.bind PoolEvent.entered?).toList,
          c ∈ u.seen := by
    intro hentered hsame
    rw [hentered, Option.toList_none, List.append_nil]
    exact ⟨hnodup, fun c hc => hsame c (hseen c hc)⟩
  cases Daemon.step_cases hstep with
  | @pool f pool hlive hadmits hpool =>
    cases f with
    | arrive connection a =>
      have hnew : connection ∉ t.seen := of_decide_eq_true hadmits
      cases hfull : a.queueFull with
      | true => exact hnone (by simp [DaemonEvent.pool?, PoolEvent.entered?, hfull]) fun c hc => List.mem_cons_of_mem _ hc
      | false =>
        have hentered : (DaemonEvent.pool (.arrive connection a) : DaemonEvent ι Key n).pool?.bind PoolEvent.entered? =
            some connection := by simp [DaemonEvent.pool?, PoolEvent.entered?, hfull]
        rw [hentered, Option.toList_some]
        refine ⟨List.nodup_append.2 ⟨hnodup, List.nodup_singleton _, ?_⟩, ?_⟩
        · rintro c hc c' hc' rfl
          exact hnew (List.mem_singleton.1 hc' ▸ hseen c hc)
        · intro c hc
          rcases List.mem_append.1 hc with hc | hc
          · exact List.mem_cons_of_mem _ (hseen c hc)
          · exact List.mem_singleton.1 hc ▸ List.mem_cons_self ..
    | _ => exact hnone rfl fun c hc => hc
  | _ => exact hnone rfl fun c hc => hc

/-- While a worker has a connection in hand, it has not been handled before, and no other worker has it. -/
theorem handling_alone
    (hrun : runs (Daemon.step listener debugStr path ssl keys) (Daemon.start initial files) es = some d) {i : Fin n} {c : ι}
    (hw : d.pool.workers i = .handling c) :
    ((es.filterMap DaemonEvent.pool?).filterMap PoolEvent.handled?).count c = 0 ∧
      ((es.filterMap DaemonEvent.pool?).filterMap PoolEvent.lost?).count c = 0 ∧
        ∀ j, d.pool.workers j = .handling c → i = j := by
  have htally := tally_run (daemon_pool hrun)
  have hreceived := htally.hand c
  have hentered := List.nodup_iff_count_le_one.1 (entered_once hrun).1 c
  rw [htally.fifo.order, List.count_append] at hentered
  have hhand := le_total (WorkerPoint.holds c) d.pool.workers i
  have hone : (WorkerPoint.handling c).holds c = 1 := if_pos rfl
  rw [hw, hone] at hhand
  refine ⟨by omega, by omega, fun j hj => ?_⟩
  by_contra hne
  have htwo := add_le_total (WorkerPoint.holds c) d.pool.workers hne
  rw [hw, hj, hone] at htwo
  omega

omit [DecidableEq ι] in
/-- A worker keeps the connection it handles until that ends. -/
theorem handling_stays {p q : Pool ι n} {f : PoolEvent ι n} (h : PoolStep listener p f q) {i : Fin n} {c : ι}
    (hw : p.workers i = .handling c) : q.workers i = .handling c ∨ f.handled? = some c ∨ f.lost? = some c := by
  have hmoved : ∀ (j : Fin n) (v w : WorkerPoint ι), p.workers j = v → v ≠ .handling c →
      Function.update p.workers j w i = .handling c := by
    intro j v w hv hne
    rw [Function.update_of_ne ?_, hw]
    rintro rfl
    exact hne (hv.symm.trans hw)
  cases h with
  | set => exact Or.inl hw
  | served _ _ _ => exact Or.inl (by simpa using hw)
  | joined _ _ _ => exact Or.inl hw
  | locked hv _ => exact Or.inl (hmoved _ _ _ hv (by simp))
  | received hv _ => exact Or.inl (hmoved _ _ _ hv (by simp))
  | disconnected hv _ => exact Or.inl (hmoved _ _ _ hv (by simp))
  | dropped hv _ => exact Or.inl (hmoved _ _ _ hv (by simp))
  | begun hv _ => exact Or.inl (hmoved _ _ _ hv (by simp))
  | @handled j connection result hv =>
    by_cases hsame : connection = c
    · exact Or.inr (Or.inl (congrArg some hsame))
    · exact Or.inl (hmoved _ _ _ hv (by simp [hsame]))
  | @panicked j connection hv =>
    by_cases hsame : connection = c
    · exact Or.inr (Or.inr (congrArg some hsame))
    · exact Or.inl (hmoved _ _ _ hv (by simp [hsame]))

/-- Worker `i` handled a packet of connection `c`. -/
def PacketOn (es : List (DaemonEvent ι Key n)) (i : Fin n) (c : ι) : Prop := ∃ env bytes, .packet i c env bytes ∈ es

/-- One worker handled all packets of `c`, and has it in hand until it ends. -/
structure OneWorker (es : List (DaemonEvent ι Key n)) (d : Daemon ι Key n) (c : ι) : Prop where
  one : ∀ i j, PacketOn es i c → PacketOn es j c → i = j
  hand : ∀ i, PacketOn es i c → d.pool.workers i = .handling c ∨
    1 ≤ ((es.filterMap DaemonEvent.pool?).filterMap PoolEvent.handled?).count c +
      ((es.filterMap DaemonEvent.pool?).filterMap PoolEvent.lost?).count c

omit [DecidableEq ι] in
theorem PacketOn.snoc {i : Fin n} {c : ι} : PacketOn (es ++ [e]) i c ↔
    PacketOn es i c ∨ ∃ env bytes, e = .packet i c env bytes := by
  unfold PacketOn
  simp only [List.mem_append, List.mem_singleton, exists_or, eq_comm]

theorem OneWorker.step {c : ι} (h : OneWorker es d c)
    (hrun : runs (Daemon.step listener debugStr path ssl keys) (Daemon.start initial files) es = some d)
    (hstep : d.step listener debugStr path ssl keys e = some u) : OneWorker (es ++ [e]) u c := by
  have hother : (∀ i env bytes, e ≠ .packet i c env bytes) → (∀ i, PacketOn es i c → u.pool.workers i = .handling c ∨
      1 ≤ (((es ++ [e]).filterMap DaemonEvent.pool?).filterMap PoolEvent.handled?).count c +
        (((es ++ [e]).filterMap DaemonEvent.pool?).filterMap PoolEvent.lost?).count c) → OneWorker (es ++ [e]) u c := by
    intro hnone hhand
    have hsame : ∀ i, PacketOn (es ++ [e]) i c → PacketOn es i c := by
      intro i hi
      rcases PacketOn.snoc.1 hi with hi | ⟨env, bytes, rfl⟩
      · exact hi
      · exact absurd rfl (hnone i env bytes)
    exact ⟨fun i j hi hj => h.one i j (hsame i hi) (hsame j hj), fun i hi => hhand i (hsame i hi)⟩
  have hcounts : ∀ f, ((es.filterMap DaemonEvent.pool?).filterMap f).count c ≤
      (((es ++ [e]).filterMap DaemonEvent.pool?).filterMap f).count c := by
    intro f
    rw [filterMap_snoc, List.filterMap_append, List.count_append]
    omega
  have hkept : ∀ i, PacketOn es i c → (d.pool.workers i = .handling c → u.pool.workers i = .handling c ∨
      1 ≤ (((es ++ [e]).filterMap DaemonEvent.pool?).filterMap PoolEvent.handled?).count c +
        (((es ++ [e]).filterMap DaemonEvent.pool?).filterMap PoolEvent.lost?).count c) → u.pool.workers i = .handling c ∨
      1 ≤ (((es ++ [e]).filterMap DaemonEvent.pool?).filterMap PoolEvent.handled?).count c +
        (((es ++ [e]).filterMap DaemonEvent.pool?).filterMap PoolEvent.lost?).count c := by
    intro i hi hgo
    rcases h.hand i hi with hw | hover
    · exact hgo hw
    · have hhandled := hcounts PoolEvent.handled?
      have hlost := hcounts PoolEvent.lost?
      omega
  cases Daemon.step_cases hstep with
  | monitor _ _ => exact hother (by simp) fun i hi => hkept i hi Or.inl
  | relay _ _ _ => exact hother (by simp) fun i hi => hkept i hi Or.inl
  | stores _ _ => exact hother (by simp) fun i hi => hkept i hi Or.inl
  | joinsMonitor _ _ _ => exact hother (by simp) fun i hi => hkept i hi Or.inl
  | @pool f pool hlive hadmits hpool =>
    refine hother (by simp) fun i hi => hkept i hi fun hw => ?_
    rcases handling_stays (Pool.step_cases hpool) hw with hw | hended | hended
    · exact Or.inl hw
    · right
      rw [pools_snoc, pools_snoc]
      simp [DaemonEvent.pool?, hended]
      omega
    · right
      rw [pools_snoc, pools_snoc]
      simp [DaemonEvent.pool?, hended]
      omega
  | @packet j connection env bytes hlive hw =>
    by_cases hsame : connection = c
    · subst hsame
      obtain ⟨hhandled, hlost, halone⟩ := handling_alone hrun hw
      have hbefore : ∀ i, PacketOn es i connection → j = i := by
        intro i hi
        rcases h.hand i hi with hwi | hover
        · exact halone i hwi
        · omega
      have hall : ∀ i, PacketOn (es ++ [.packet j connection env bytes]) i connection → j = i := by
        intro i hi
        rcases PacketOn.snoc.1 hi with hi | ⟨env', bytes', heq⟩
        · exact hbefore i hi
        · cases heq
          rfl
      exact ⟨fun i k hi hk => (hall i hi).symm.trans (hall k hk), fun i hi => Or.inl (hall i hi ▸ hw)⟩
    · refine hother ?_ fun i hi => hkept i hi Or.inl
      rintro i env' bytes' heq
      cases heq
      exact hsame rfl

/-- The run: by induction on the events. -/
theorem oneWorker_run
    (hrun : runs (Daemon.step listener debugStr path ssl keys) (Daemon.start initial files) es = some d) (c : ι) :
    OneWorker es d c := by
  refine (runs_history (P := fun es d => runs (Daemon.step listener debugStr path ssl keys) (Daemon.start initial files) es =
    some d ∧ OneWorker es d c) hrun ⟨rfl, ?_⟩ ?_).2
  · constructor <;> simp [PacketOn]
  · rintro es t e u ⟨ht, h⟩ hstep
    exact ⟨runs_snoc.2 ⟨t, ht, hstep⟩, h.step ht hstep⟩

/-! ## Where a signature comes from -/

/-- OpenSSL behaves as documented, whenever a packet is handled. -/
def DocumentedPackets (es : List (DaemonEvent ι Key n)) : Prop :=
  ∀ i c env bytes, .packet i c env bytes ∈ es → env.ssl.Documented

omit [DecidableEq ι] in
theorem DocumentedPackets.left {es' : List (DaemonEvent ι Key n)} (h : DocumentedPackets (es ++ es')) :
    DocumentedPackets es := fun i c env bytes hmem => h i c env bytes (List.mem_append_left _ hmem)

theorem Heard.documented {c : ι} {h : List (Event Key)}
    (hheard : Heard listener debugStr path ssl keys initial files c es h) (hssl : DocumentedPackets es) : Documented h := by
  intro e he
  obtain ⟨h₁, h₂, hsplit⟩ := List.append_of_mem he
  obtain ⟨es₁, i, es₂, t, hes, -⟩ := hheard.moments h₁ e h₂ hsplit
  exact hssl i c e.moment.env e.packet (by simp [hes])

/-- **Where a signature comes from.** Let a frame with a signature be written for an E packet. Then the
message was begun by a packet that the same worker handled, with no end of a message since. The
configuration of the signature is the one that was active then: the initial one, or one that listens at
the same address, was read from files as they stood before, and was confirmed. -/
theorem daemon_signs {i : Fin n} {c : ι} {env : Env Key} {bytes : Bytes} {frames : List Frame} {f : Frame}
    (hrun : runs (Daemon.step listener debugStr path ssl keys) (Daemon.start initial files) es = some d)
    (hstep : d.step listener debugStr path ssl keys (.packet i c env bytes) = some u)
    (hssl : DocumentedPackets (es ++ [.packet i c env bytes])) (hend : kindOf bytes = some .E)
    (hproper : ∀ f ∈ frames, f.Proper) (hout : outputOf (u.conns c) = outputOf (d.conns c) ++ encodeAll frames)
    (hf : f ∈ frames) (hsig : f.isSignature = true) :
    ∃ es₁ env' start es₂ t conn out signed, es = es₁ ++ .packet i c env' start :: es₂ ∧
      runs (Daemon.step listener debugStr path ssl keys) (Daemon.start initial files) es₁ = some t ∧
      (kindOf start = some .M ∨
        kindOf start = some .L ∧ ∀ conn out, t.conns c = .ok (.again conn) out → conn.state.config = none) ∧
      (∀ p ∈ es₂.filterMap (DaemonEvent.packetOf? c),
        kindOf p.2 ≠ some .M ∧ kindOf p.2 ≠ some .A ∧ kindOf p.2 ≠ some .E) ∧
      Vetted debugStr path ssl keys initial files (es₁.filterMap DaemonEvent.monitor?) t.monitor.active ∧
      d.conns c = .ok (.again conn) out ∧
      sign env t.monitor.active conn.state.headers (conn.state.body.finish env.ssl.sha256) = .ok signed ∧
      f = signatureFrame conn.actions signed.value := by
  obtain ⟨h, hconn, hheard⟩ := heard_run hrun c
  have hu := runs_snoc.2 ⟨d, hrun, hstep⟩
  have hheard' : Heard listener debugStr path ssl keys initial files c (es ++ [.packet i c env bytes])
      (h ++ [⟨⟨some d.monitor.active, env⟩, bytes⟩]) := hheard.packet hrun hconn
  have hdoc := hheard'.documented hssl
  rw [conns_packet hstep hconn, hconn] at hout
  obtain ⟨conn, config, signed, hwaits, -, hconfig, hsign, rfl⟩ := signature_source hdoc hend ⟨hout, hproper⟩ hf hsig
  have hcaptured := hconfig
  rw [(run_inv hdoc.left hwaits).config] at hcaptured
  obtain ⟨pre, start, mid, rfl, hstarts, hactive, hmid⟩ := captured_start hcaptured
  obtain ⟨es₁, j, es₂, t, rfl, ht, hthen, hbefore, hlater⟩ := hheard.moments pre start mid rfl
  obtain rfl : t.monitor.active = config := Option.some.inj (hthen.symm.trans hactive)
  -- the worker of the first packet is the worker of the last
  obtain rfl : j = i := (oneWorker_run hu c).one j i ⟨start.moment.env, start.packet, by simp⟩ ⟨env, bytes, by simp⟩
  refine ⟨es₁, start.moment.env, start.packet, es₂, t, conn, _, signed, rfl, ht, ?_, fun p hp => ?_,
    vetted_active (daemon_monitor ht), hconn.trans (runOf_of_after hwaits), hsign, rfl⟩
  · refine hstarts.imp_right fun ⟨hL, hnone⟩ => ⟨hL, fun conn₀ out₀ h₀ => ?_⟩
    have hwaits₀ : after pre = some conn₀ := by rw [after, ← hbefore, h₀]
    rw [(run_inv hdoc.left.left hwaits₀).config]
    exact hnone
  · rw [← hlater] at hp
    obtain ⟨x, hx, rfl⟩ := List.mem_map.1 hp
    have hinner := hmid x hx
    simp only [Event.boundary, Bool.or_eq_false_iff, decide_eq_false_iff_not] at hinner
    exact ⟨hinner.1.1, hinner.1.2, hinner.2⟩

/-! ## What the result of the daemon says -/

theorem runOf_ne_panic {h : List (Event Key)} (hssl : Documented h) : runOf h ≠ .panic := by
  induction h using List.reverseRecOn with
  | nil => exact fun h => by cases h
  | append_singleton h e ih =>
    cases hafter : after h with
    | none => rw [runOf_over hafter]; exact ih hssl.left
    | some conn =>
      rw [runOf_next hafter]
      exact (onPacket_ok recorder_takes hssl.last conn e.packet (s := written h) trivial).ne_panic

/-- No worker panics. -/
theorem workers_unbroken
    (hrun : runs (Daemon.step listener debugStr path ssl keys) (Daemon.start initial files) es = some d)
    (hssl : DocumentedPackets es) (i : Fin n) : d.pool.workers i ≠ .panicked := by
  refine (runs_history (P := fun es d => runs (Daemon.step listener debugStr path ssl keys) (Daemon.start initial files) es =
    some d ∧ (DocumentedPackets es → ∀ i, d.pool.workers i ≠ .panicked)) hrun ⟨rfl, fun _ i => by simp [Daemon.start]⟩ ?_).2
      hssl i
  rintro es t e u ⟨ht, hbefore⟩ hstep
  refine ⟨runs_snoc.2 ⟨t, ht, hstep⟩, fun hssl i hpanicked => ?_⟩
  have hunbroken := hbefore hssl.left
  cases Daemon.step_cases hstep with
  | @pool f pool hlive hadmits hpool =>
    have hmoved : ∀ (j : Fin n) (w : WorkerPoint ι), w ≠ .panicked → Function.update t.pool.workers j w i ≠ .panicked := by
      intro j w hw
      by_cases hij : i = j
      · rw [hij, Function.update_self]
        exact hw
      · rw [Function.update_of_ne hij]
        exact hunbroken i
    cases Pool.step_cases hpool with
    | set => exact hunbroken i hpanicked
    | served _ _ _ => exact hunbroken i (by simpa using hpanicked)
    | joined _ _ _ => exact hunbroken i hpanicked
    | @panicked j connection hw =>
      obtain ⟨h, hconn, hheard⟩ := heard_run ht connection
      have hpanic : isPanic (t.conns connection) = true := hadmits
      rw [hconn] at hpanic
      cases hr : runOf h with
      | panic => exact runOf_ne_panic (hheard.documented hssl.left) hr
      | _ => rw [hr] at hpanic; cases hpanic
    | _ => exact hmoved _ _ (by simp) hpanicked
  | _ => exact hunbroken i hpanicked

/-- **What the result of the daemon says**, once the start-up checks of `run_daemon` have passed and the
listener is bound. When the main thread leaves, the monitor has ended. The result
is `Ok` only after SIGTERM or SIGINT; then all workers have ended, and every connection that was let in
was handled to its end, or was closed unanswered after the signal. An error is a failed readiness check
or a failed accept that was not `WouldBlock`: no connection brings the daemon down. -/
theorem exit_tells {r : Except String Unit}
    (hrun : runs (Daemon.step listener debugStr path ssl keys) (Daemon.start initial files) es = some d)
    (hssl : DocumentedPackets es) (hexited : d.main = .exited r) :
    d.monitor.point = .ended ∧
      (r = .ok () → .monitor .sigterm ∈ es ∧ (∀ i, d.pool.workers i = .ended) ∧
        ∀ c, ((es.filterMap DaemonEvent.pool?).filterMap PoolEvent.entered?).count c = d.pool.channel.queue.count c +
          ((es.filterMap DaemonEvent.pool?).filterMap PoolEvent.handled?).count c +
            ((es.filterMap DaemonEvent.pool?).filterMap PoolEvent.dropped?).count c) ∧
      ∀ text, r = .error text → (∃ cause, .pool (.waitReadable (.error cause)) ∈ es ∧ text = readinessFailed cause) ∨
        ∃ a e, .pool (.acceptFails a) ∈ es ∧ listener.accept a = .error e ∧ e.kind ≠ .wouldBlock ∧ text = listenerFailed e := by
  have hlinked := linked_run hrun
  have hpool := daemon_pool hrun
  obtain ⟨hreturned, hrelayed⟩ := hlinked.exited r hexited
  have hknows := (returning_run hpool).knows
  rw [hreturned] at hknows
  have hmem : ∀ f, f ≠ .set → f ∈ es.filterMap DaemonEvent.pool? → .pool f ∈ es := by
    intro f hset hf
    obtain ⟨e, he, hpool?⟩ := List.mem_filterMap.1 hf
    cases e with
    | relay => cases hpool?; exact absurd rfl hset
    | pool f' => cases hpool?; exact he
    | _ => cases hpool?
  refine ⟨hlinked.relayed hrelayed, ?_, ?_⟩
  · rintro rfl
    obtain ⟨-, hended⟩ := hknows
    refine ⟨hlinked.ok hreturned, hended, fun c => ?_⟩
    have htally := tally_run hpool
    have hhand : total (WorkerPoint.holds c) d.pool.workers = 0 := total_eq_zero.2 fun i => by rw [hended i]; rfl
    have hbroken : total WorkerPoint.broken d.pool.workers = 0 := total_eq_zero.2 fun i => by rw [hended i]; rfl
    have hlost : ((es.filterMap DaemonEvent.pool?).filterMap PoolEvent.lost?).count c ≤ 0 :=
      List.count_le_length.trans (htally.lost.trans hbroken).le
    have hreceived := htally.hand c
    rw [htally.fifo.order, List.count_append]
    omega
  · rintro text rfl
    have hfault : Fault listener (es.filterMap DaemonEvent.pool?) d.pool text := hknows
    cases hfault with
    | panicked hw hset => exact absurd hw (workers_unbroken hrun hssl _)
    | @readiness cause h => exact Or.inl ⟨cause, hmem _ (by simp) h, rfl⟩
    | @listener a e h haccept hkind => exact Or.inr ⟨a, e, hmem _ (by simp) h, haccept, hkind, rfl⟩

end

theorem documented_example {es : List (DaemonEvent Nat Unit 1)}
    (h : ∀ e ∈ es, ∀ i c env bytes, e = .packet i c env bytes → env = exampleEnv) : DocumentedPackets es := by
  intro i c env bytes hmem
  rw [h _ hmem i c env bytes rfl]
  exact exampleSsl_documented

/-- The message is begun by its M, and answered with a signature. -/
theorem daemon_signs_example : ∃ (es₁ : List (DaemonEvent Nat Unit 1)) (env' : Env Unit) (start : Bytes)
    (es₂ : List (DaemonEvent Nat Unit 1)) (t : Daemon Nat Unit 1) (conn : Conn Unit) (signed : Signed),
    exampleServed = es₁ ++ .packet 0 7 env' start :: es₂ ∧
      Vetted String.ofList [] exampleSsl (exampleKeys 2048) exampleConfig (exampleFiles "example.com")
        (es₁.filterMap DaemonEvent.monitor?) t.monitor.active ∧
      sign exampleEnv t.monitor.active conn.state.headers (conn.state.body.finish exampleSsl.sha256) = .ok signed ∧
      signatureFrame conn.actions signed.value ∈ exampleReply := by
  obtain ⟨f, hf, hsig⟩ := exampleReply_signs
  obtain ⟨es₁, env', start, es₂, t, conn, out, signed, hes, -, -, -, hvetted, -, hsign, rfl⟩ := daemon_signs
    (show runs (Daemon.step .unix String.ofList [] exampleSsl (exampleKeys 2048))
      (Daemon.start exampleConfig (exampleFiles "example.com")) exampleServed = some _ from rfl)
    (show Daemon.step .unix String.ofList [] exampleSsl (exampleKeys 2048) _ (.packet 0 7 exampleEnv [byte 'E']) = some _
      from rfl)
    (documented_example (by simp [exampleServed])) rfl exampleReply_proper (by decide +kernel) hf hsig
  exact ⟨es₁, env', start, es₂, t, conn, signed, hes, hvetted, hsign, hf⟩

/-- After the signal the connection comes to its end, and then the threads. -/
def exampleLeaving : List (DaemonEvent Nat Unit 1) :=
  [.monitor .testShutdown, .relay, .pool (.waitReadable (.ok false)), .pool (.worker (Fin.last 0) (.handled 7 (.ok ()))),
    .pool (.load true), .pool (.worker (Fin.last 0) .lock), .pool (.worker (Fin.last 0) (.recv none)), .pool (.join (Fin.last 0)), .pool .joinedAll,
    .stores, .joinsMonitor]

theorem exit_tells_example : ∃ d : Daemon Nat Unit 1, d.main = .exited (.ok ()) ∧ d.monitor.point = .ended ∧
    ∀ i, d.pool.workers i = .ended := by
  have hruns : (runs (Daemon.step .unix String.ofList [] exampleSsl (exampleKeys 2048))
      (Daemon.start exampleConfig (exampleFiles "example.com")) (exampleAsked ++ exampleLeaving)).any
        (fun d => decide (d.main = .exited (.ok ()))) = true := by decide +kernel
  obtain ⟨d, hrun, hexited⟩ := (Option.any_eq_true _ _).1 hruns
  have hexited : d.main = .exited (.ok ()) := of_decide_eq_true hexited
  obtain ⟨hmonitor, hok, -⟩ :=
    exit_tells hrun (documented_example (by simp [exampleAsked, exampleServed, exampleLeaving])) hexited
  exact ⟨d, hexited, hmonitor, (hok rfl).2.1⟩

end DkimLite
