import DkimLite.Coverage

/-!
# Many connections and one active configuration

The workers share nothing but the active configuration: an `Arc<RwLock<Arc<RuntimeConfig>>>`
that M and L read and a reload replaces whole. `System` is that configuration with the loop of
every connection; `SystemEvent` is a packet on one of them, or a replacement. A packet is one
event: the lock is read at most once for it, and everything else it touches is the
connection's own.

`runs_connection` says that a connection in any interleaving behaves as it does alone, on its own
packets, each with the configuration that was active then (`historyOf`). `one_snapshot` is what
follows for signatures.
-/

namespace DkimLite
open Rust Text

section
variable {ι Key : Type} [DecidableEq ι]

inductive SystemEvent (ι Key : Type) where
  | packet (i : ι) (env : Env Key) (packet : Bytes)
  | reload (config : RuntimeConfig Key)

structure System (ι Key : Type) where
  active : RuntimeConfig Key
  /-- Where the loop of each connection stands. -/
  conns : ι → Outcome String Bytes (Flow (Conn Key) Unit)

namespace System

/-- Every connection is waiting for its first packet. -/
def start (initial : RuntimeConfig Key) : System ι Key := ⟨initial, fun _ => .ok (.again {}) []⟩

/-- The loop of a connection takes the next packet, if it waits for one. -/
def receive (active : RuntimeConfig Key) (env : Env Key) (packet : Bytes) :
    Outcome String Bytes (Flow (Conn Key) Unit) → Outcome String Bytes (Flow (Conn Key) Unit)
  | .ok (.again conn) out => onPacket recorder ⟨some active, env⟩ conn packet out
  | o => o

def step (sys : System ι Key) : SystemEvent ι Key → System ι Key
  | .packet i env packet =>
    { sys with conns := fun j => if j = i then receive sys.active env packet (sys.conns j) else sys.conns j }
  | .reload config => { sys with active := config }

def run (initial : RuntimeConfig Key) (trace : List (SystemEvent ι Key)) : System ι Key :=
  trace.foldl step (start initial)

@[simp] theorem run_nil (initial : RuntimeConfig Key) : run initial ([] : List (SystemEvent ι Key)) = start initial := rfl

@[simp] theorem run_snoc (initial : RuntimeConfig Key) (trace : List (SystemEvent ι Key)) (e : SystemEvent ι Key) :
    run initial (trace ++ [e]) = (run initial trace).step e := by
  simp [run]

end System

/-! ## A connection by itself -/

/-- The configuration that is active after a trace: that of the last reload. -/
def activeAfter (initial : RuntimeConfig Key) : List (SystemEvent ι Key) → RuntimeConfig Key
  | [] => initial
  | .packet _ _ _ :: trace => activeAfter initial trace
  | .reload config :: trace => activeAfter config trace

/-- The packets of connection `i`, each at its moment. -/
def historyOf (i : ι) (active : RuntimeConfig Key) : List (SystemEvent ι Key) → List (Event Key)
  | [] => []
  | .packet j env packet :: trace =>
    if j = i then ⟨⟨some active, env⟩, packet⟩ :: historyOf i active trace else historyOf i active trace
  | .reload config :: trace => historyOf i config trace

omit [DecidableEq ι] in
theorem activeAfter_append (initial : RuntimeConfig Key) (trace trace' : List (SystemEvent ι Key)) :
    activeAfter initial (trace ++ trace') = activeAfter (activeAfter initial trace) trace' := by
  induction trace generalizing initial with
  | nil => rfl
  | cons e trace ih =>
    cases e with
    | packet => exact ih initial
    | reload config => exact ih config

theorem historyOf_append (i : ι) (active : RuntimeConfig Key) (trace trace' : List (SystemEvent ι Key)) :
    historyOf i active (trace ++ trace') = historyOf i active trace ++ historyOf i (activeAfter active trace) trace' := by
  induction trace generalizing active with
  | nil => rfl
  | cons e trace ih =>
    cases e with
    | packet j env packet =>
      by_cases hj : j = i <;> simp [historyOf, activeAfter, hj, ih]
    | reload config => simp [historyOf, activeAfter, ih]

theorem run_active (initial : RuntimeConfig Key) (trace : List (SystemEvent ι Key)) :
    (System.run initial trace).active = activeAfter initial trace := by
  induction trace using List.reverseRecOn with
  | nil => rfl
  | append_singleton trace e ih =>
    rw [System.run_snoc, activeAfter_append]
    cases e with
    | packet => exact ih
    | reload config => rfl

/-- One packet more, on a run of the connection alone. -/
theorem receive_runOf (es : List (Event Key)) (active : RuntimeConfig Key) (env : Env Key) (packet : Bytes) :
    System.receive active env packet (runOf es) = runOf (es ++ [⟨⟨some active, env⟩, packet⟩]) := by
  cases hafter : after es with
  | some conn =>
    rw [runOf_next hafter, runOf_of_after hafter]
    rfl
  | none =>
    rw [runOf_over hafter]
    unfold after at hafter
    match hr : runOf es with
    | .ok (.again _) _ => rw [hr] at hafter; cases hafter
    | .ok (.done ()) _ => rfl
    | .err _ _ => rfl
    | .panic => rfl
    | .pending _ => rfl

/-- **Every connection runs as if alone**, whatever the interleaving. -/
theorem runs_connection (initial : RuntimeConfig Key) (trace : List (SystemEvent ι Key)) (i : ι) :
    (System.run initial trace).conns i = runOf (historyOf i initial trace) := by
  induction trace using List.reverseRecOn with
  | nil => rfl
  | append_singleton trace e ih =>
    rw [System.run_snoc, historyOf_append]
    cases e with
    | packet j env packet =>
      by_cases hj : i = j
      · subst hj
        simp only [System.step, if_true, ih, run_active, receive_runOf, historyOf]
      · simp only [System.step, if_neg hj, ih, historyOf, if_neg (Ne.symm hj), List.append_nil]
    | reload config => simp only [System.step, ih, historyOf, List.append_nil]

/-! ## Where the configuration of a message comes from -/

/-- The configuration of an open message is the one its start met: the latest M, or the first L of
a message without one. -/
theorem captured_start {h : List (Event Key)} {config : RuntimeConfig Key} (hc : captured h = some config) :
    ∃ pre start mid, h = pre ++ start :: mid ∧ start.Starts pre ∧ start.moment.active = some config ∧
      ∀ e ∈ mid, e.boundary = false := by
  induction h using List.reverseRecOn with
  | nil => cases hc
  | append_singleton h e ih =>
    -- a packet that opens nothing joins the message before it
    have hjoin : e.boundary = false → captured h = some config →
        ∃ pre start mid, h ++ [e] = pre ++ start :: mid ∧ start.Starts pre ∧ start.moment.active = some config ∧
          ∀ e ∈ mid, e.boundary = false := by
      intro he hprev
      obtain ⟨pre, start, mid, rfl, hstart, hactive, hmid⟩ := ih hprev
      refine ⟨pre, start, mid ++ [e], by simp, hstart, hactive, fun x hx => ?_⟩
      rcases List.mem_append.1 hx with hx | hx
      · exact hmid x hx
      · obtain rfl := List.mem_singleton.1 hx
        exact he
    have hinner : ∀ kind, e.kind = some kind → kind ≠ .M → kind ≠ .A → kind ≠ .E → e.boundary = false := by
      intro kind hk hM hA hE
      simp [Event.boundary, hk, hM, hA, hE]
    rw [captured_snoc] at hc
    unfold captureStep at hc
    split at hc
    case h_1 hk => exact ⟨h, e, [], rfl, Or.inl hk, hc, by simp⟩
    case h_2 hk =>
      by_cases hopen : (captured h).isSome = true
      · rw [if_pos hopen] at hc
        exact hjoin (hinner _ hk (by simp) (by simp) (by simp)) hc
      · rw [if_neg hopen] at hc
        exact ⟨h, e, [], rfl, Or.inr ⟨hk, by simpa using hopen⟩, hc, by simp⟩
    case h_3 => cases hc
    case h_4 => cases hc
    case h_5 hM hL hE hA =>
      refine hjoin ?_ hc
      simp only [Event.boundary, Bool.or_eq_false_iff, decide_eq_false_iff_not]
      exact ⟨⟨hM, hA⟩, hE⟩

theorem historyOf_split {i : ι} {trace : List (SystemEvent ι Key)} {active : RuntimeConfig Key} {pre mid : List (Event Key)}
    {start : Event Key} (h : historyOf i active trace = pre ++ start :: mid) :
    ∃ before env packet later, trace = before ++ .packet i env packet :: later ∧ historyOf i active before = pre ∧
      start = ⟨⟨some (activeAfter active before), env⟩, packet⟩ ∧
      historyOf i (activeAfter active before) later = mid := by
  induction trace generalizing active pre with
  | nil => simp [historyOf] at h
  | cons e trace ih =>
    cases e with
    | reload config =>
      obtain ⟨before, env, packet, later, rfl, hpre, hstart, hmid⟩ := ih h
      exact ⟨.reload config :: before, env, packet, later, rfl, hpre, hstart, hmid⟩
    | packet j env packet =>
      by_cases hj : j = i
      · subst hj
        simp only [historyOf, if_true] at h
        cases pre with
        | nil =>
          obtain ⟨rfl, rfl⟩ := List.cons.inj h
          exact ⟨[], env, packet, trace, rfl, rfl, rfl, rfl⟩
        | cons x pre =>
          rw [List.cons_append] at h
          obtain ⟨rfl, hrest⟩ := List.cons.inj h
          obtain ⟨before, env', packet', later, rfl, hpre, hstart, hmid⟩ := ih hrest
          exact ⟨.packet j env packet :: before, env', packet', later, rfl, by simp [historyOf, hpre], hstart, hmid⟩
      · simp only [historyOf, if_neg hj] at h
        obtain ⟨before, env', packet', later, rfl, hpre, hstart, hmid⟩ := ih h
        exact ⟨.packet j env packet :: before, env', packet', later, rfl, by simp [historyOf, hj, hpre], hstart, hmid⟩

/-- What a connection can be influenced by: its own packets and the reloads. -/
def SystemEvent.concerns (i : ι) : SystemEvent ι Key → Bool
  | .packet j _ _ => j = i
  | .reload _ => true

@[simp] theorem concerns_packet (i j : ι) (env : Env Key) (packet : Bytes) :
    (SystemEvent.packet j env packet).concerns i = decide (j = i) := rfl

@[simp] theorem concerns_reload (i : ι) (config : RuntimeConfig Key) : (SystemEvent.reload config).concerns i = true := rfl

theorem historyOf_concerns (i : ι) (active : RuntimeConfig Key) (trace : List (SystemEvent ι Key)) :
    historyOf i active (trace.filter (·.concerns i)) = historyOf i active trace := by
  induction trace generalizing active with
  | nil => rfl
  | cons e trace ih =>
    cases e with
    | packet j env packet => by_cases hj : j = i <;> simp [historyOf, hj, ih]
    | reload config => simp [List.filter_cons, historyOf, ih]

/-! ## Signatures -/

/-- OpenSSL behaves as documented all along. -/
def DocumentedTrace (trace : List (SystemEvent ι Key)) : Prop :=
  ∀ i env packet, SystemEvent.packet i env packet ∈ trace → env.ssl.Documented

theorem documented_history {i : ι} {active : RuntimeConfig Key} {trace : List (SystemEvent ι Key)}
    (h : DocumentedTrace trace) : Documented (historyOf i active trace) := by
  intro e he
  obtain ⟨pre, mid, hsplit⟩ := List.append_of_mem he
  obtain ⟨before, env, packet, later, rfl, -, rfl, -⟩ := historyOf_split hsplit
  exact h i env packet (by simp)

/-- **One snapshot.** Let connection `i` receive an E packet in any interleaving of packets and
reloads. Whatever signature is written for it takes its domain check, d=, s= and key from the
configuration that was active when the latest M of the message was processed, or its first L
if it had no M; and where the connection stands depends on its own packets and the reloads only. -/
theorem one_snapshot (initial : RuntimeConfig Key) (trace : List (SystemEvent ι Key)) (i : ι) (env : Env Key)
    (packet : Bytes) (hssl : DocumentedTrace (trace ++ [.packet i env packet])) (hend : kindOf packet = some .E) :
    (∀ frames, (∀ f ∈ frames, f.Proper) →
      outputOf ((System.run initial (trace ++ [.packet i env packet])).conns i) =
        outputOf ((System.run initial trace).conns i) ++ encodeAll frames →
      ∀ f ∈ frames, f.isSignature = true →
        ∃ before env' start later conn actions value, trace = before ++ .packet i env' start :: later ∧
          (kindOf start = some .M ∨ kindOf start = some .L ∧ captured (historyOf i initial before) = none) ∧
          (∀ e ∈ historyOf i (activeAfter initial before) later, e.boundary = false) ∧
          after (historyOf i initial trace) = some conn ∧
          SignedWith env (activeAfter initial before) conn.state.headers value ∧ f = signatureFrame actions value) ∧
      (System.run initial (trace ++ [.packet i env packet])).conns i =
        (System.run initial ((trace ++ [SystemEvent.packet i env packet]).filter (·.concerns i))).conns i := by
  have hhistory : historyOf i initial (trace ++ [.packet i env packet]) =
      historyOf i initial trace ++ [⟨⟨some (activeAfter initial trace), env⟩, packet⟩] := by
    simp [historyOf_append, historyOf]
  refine ⟨fun frames hproper hout f hf hsig => ?_, by rw [runs_connection, runs_connection, historyOf_concerns]⟩
  have hdoc : Documented (historyOf i initial (trace ++ [.packet i env packet])) := documented_history hssl
  rw [hhistory] at hdoc
  rw [runs_connection, runs_connection, hhistory] at hout
  obtain ⟨conn, config, signed, hafter, -, hconfig, hsign, rfl⟩ := signature_source hdoc hend ⟨hout, hproper⟩ hf hsig
  rw [(run_inv hdoc.left hafter).config] at hconfig
  obtain ⟨pre, start, mid, hsplit, hstarts, hactive, hmid⟩ := captured_start hconfig
  obtain ⟨before, env', packet', later, rfl, rfl, rfl, rfl⟩ := historyOf_split hsplit
  obtain rfl : activeAfter initial before = config := Option.some.inj hactive
  exact ⟨before, env', packet', later, conn, _, signed.value, rfl, hstarts, hmid, hafter, signedWith_of_sign hsign, rfl⟩

end

/-- The configuration after a change of the selector. -/
def exampleRotated : RuntimeConfig Unit := { exampleConfig with selector := ⟨ascii "s2", by decide, by decide⟩ }

/-- A reload comes while a message of connection 0 is open and connection 1 starts one. -/
def exampleTrace : List (SystemEvent Nat Unit) :=
  [.packet 0 exampleEnv exampleOffer.packet, .packet 0 exampleEnv [byte 'M'],
    .packet 0 exampleEnv (byte 'L' :: exampleFrom.wire), .reload exampleRotated, .packet 1 exampleEnv [byte 'M'],
    .packet 1 exampleEnv (byte 'L' :: ascii "From")]

theorem one_snapshot_rotated : ∃ before env start later conn actions value,
    exampleTrace = before ++ .packet 0 env start :: later ∧
      (kindOf start = some .M ∨ kindOf start = some .L ∧ captured (historyOf 0 exampleConfig before) = none) ∧
      (∀ e ∈ historyOf 0 (activeAfter exampleConfig before) later, e.boundary = false) ∧
      after (historyOf 0 exampleConfig exampleTrace) = some conn ∧
      SignedWith exampleEnv (activeAfter exampleConfig before) conn.state.headers value ∧
      ∃ f ∈ exampleReply, f = signatureFrame actions value := by
  have hssl : DocumentedTrace (exampleTrace ++ [.packet 0 exampleEnv [byte 'E']]) := by
    intro i env packet he
    simp only [exampleTrace, List.mem_append, List.mem_cons, List.not_mem_nil, or_false, SystemEvent.packet.injEq,
      reduceCtorEq, false_or] at he
    rcases he with (⟨-, rfl, -⟩ | ⟨-, rfl, -⟩ | ⟨-, rfl, -⟩ | ⟨-, rfl, -⟩ | ⟨-, rfl, -⟩) | ⟨-, rfl, -⟩ <;>
      exact exampleSsl_documented
  obtain ⟨f, hf, hsig⟩ := exampleReply_signs
  obtain ⟨before, env, start, later, conn, actions, value, htrace, hstart, hlater, hafter, hsigned, hframe⟩ :=
    (one_snapshot exampleConfig exampleTrace 0 exampleEnv [byte 'E'] hssl rfl).1 exampleReply exampleReply_proper
      (by decide +kernel) f hf hsig
  exact ⟨before, env, start, later, conn, actions, value, htrace, hstart, hlater, hafter, hsigned, f, hf, hframe⟩

end DkimLite
