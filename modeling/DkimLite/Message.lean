import DkimLite.Replies

/-!
# One message of a connection

A message is the packets from its start (M, or the first L when none is open) to E.
`MessageState.Gathers` says what the state of the loop holds while they arrive: the fields and
the body of this message and nothing of what came before, or an error once a field was
rejected. `signed_iff_eligible` follows: a message is signed exactly when it is eligible, over
exactly what was received, after any history of the connection.
-/

namespace DkimLite
open Rust Text

/-! ## The fields of a message -/

/-- The bytes that count towards `MAX_HEADER_BYTES`. -/
def bytesOf (headers : List Header) : Nat := (headers.map fun h => h.name.length + h.value.length).sum

@[simp] theorem bytesOf_append (headers : List Header) (h : Header) :
    bytesOf (headers ++ [h]) = bytesOf headers + (h.name.length + h.value.length) := by
  simp [bytesOf]

/-- The L payloads of a message are `headers`, within the limits. -/
structure Acceptable (payloads : List Bytes) (headers : List Header) : Prop where
  wire : payloads = headers.map Header.wire
  count : headers.length ≤ maxHeaders
  bytes : bytesOf headers ≤ maxHeaderBytes

/-- A message that is acceptable was acceptable all along. -/
theorem Acceptable.init {payloads : List Bytes} {payload : Bytes} {headers : List Header}
    (h : Acceptable (payloads ++ [payload]) headers) :
    ∃ init last, headers = init ++ [last] ∧ payload = last.wire ∧ Acceptable payloads init := by
  obtain ⟨hwire, hcount, hbytes⟩ := h
  rcases List.eq_nil_or_concat headers with rfl | ⟨init, last, rfl⟩
  · simp at hwire
  rw [List.concat_eq_append] at hwire hcount hbytes ⊢
  rw [List.map_append] at hwire
  obtain ⟨hinit, hlast⟩ := List.append_inj' hwire rfl
  rw [List.length_append] at hcount
  rw [bytesOf_append] at hbytes
  exact ⟨init, last, rfl, by simpa using hlast, hinit, by omega, by omega⟩

theorem map_wire_inj {a b : List Header} (h : a.map Header.wire = b.map Header.wire) : a = b :=
  List.map_injective_iff.2 (fun _ _ => Header.wire_inj) h

/-! ## What the state holds -/

section
variable {Key : Type}

/-- The state after the L payloads `fields` and the B payloads `chunks` of a message. -/
structure MessageState.Gathers (state : MessageState Key) (config : RuntimeConfig Key) (fields chunks : List Bytes) :
    Prop where
  config : state.config = some config
  kept : state.error = none → Acceptable fields state.headers ∧ state.headerBytes = bytesOf state.headers ∧
    state.body = chunks.flatten.foldl BodyCanonicalizer.referenceStep .default
  failed : state.error.isSome = true → ∀ headers, ¬ Acceptable fields headers

theorem gathers_begin (config : RuntimeConfig Key) : (MessageState.begin config).Gathers config [] [] where
  config := rfl
  kept _ := ⟨⟨rfl, Nat.zero_le _, Nat.zero_le _⟩, rfl, rfl⟩
  failed h := by cases h

/-- Another field. -/
theorem MessageState.Gathers.field {state st : MessageState Key} {config : RuntimeConfig Key} {fields chunks : List Bytes}
    {payload : Bytes} (h : state.Gathers config fields chunks) (hst : Received state payload st) :
    st.Gathers config (fields ++ [payload]) chunks := by
  obtain ⟨hconfig, hkept, hfailed⟩ := h
  cases hst with
  | skipped herr =>
    refine ⟨hconfig, fun hnone => absurd herr (by rw [hnone]; simp), fun _ headers hacc => ?_⟩
    obtain ⟨init, -, -, -, hinit⟩ := hacc.init
    exact hfailed herr init hinit
  | @added header herr hwire hfits =>
    obtain ⟨hacc, hbytes, hbody⟩ := hkept herr
    obtain ⟨hcount, hlimit⟩ := hfits
    have hmax : maxHeaderBytes < usizeMax := by decide
    have hsum : saturatingAdd state.headerBytes (header.name.length + header.value.length) =
        bytesOf (state.headers ++ [header]) := by
      rw [bytesOf_append, ← hbytes]
      unfold saturatingAdd at hlimit ⊢
      omega
    refine ⟨hconfig, fun _ => ⟨⟨?_, ?_, ?_⟩, hsum, hbody⟩, fun he => ?_⟩
    · simp only [List.map_append, List.map_cons, List.map_nil, hacc.wire, hwire]
    · simp only [List.length_append, List.length_singleton]; omega
    · simp only; rw [← hsum]; exact hlimit
    · rw [herr] at he; cases he
  | rejected herr hno =>
    obtain ⟨hacc, hbytes, -⟩ := hkept herr
    refine ⟨hconfig, nofun, fun _ headers hnew => ?_⟩
    -- an acceptable message would have let this field through
    obtain ⟨init, last, rfl, hlast, hinit⟩ := hnew.init
    obtain rfl : init = state.headers := map_wire_inj (hinit.wire.symm.trans hacc.wire)
    refine hno last hlast ⟨?_, ?_⟩
    · have := hnew.count
      rw [List.length_append, List.length_singleton] at this
      omega
    · have := hnew.bytes
      rw [bytesOf_append, ← hbytes] at this
      unfold saturatingAdd
      omega

/-- Another chunk of the body. -/
theorem MessageState.Gathers.chunk {state st : MessageState Key} {config : RuntimeConfig Key} {fields chunks : List Bytes}
    {payload : Bytes} (h : state.Gathers config fields chunks) (hst : receiveBody state payload = .ok st) :
    st.Gathers config fields (chunks ++ [payload]) := by
  obtain ⟨hconfig, hkept, hfailed⟩ := h
  rw [receiveBody_eq, hconfig, Option.isNone_some, if_neg (by simp)] at hst
  cases herr : state.error with
  | some e =>
    rw [herr, Option.isNone_some, if_neg (by simp)] at hst
    cases hst
    exact ⟨hconfig, fun hnone => absurd herr (by rw [hnone]; simp), hfailed⟩
  | none =>
    rw [herr, Option.isNone_none, if_pos rfl] at hst
    cases hst
    obtain ⟨hacc, hbytes, hbody⟩ := hkept herr
    refine ⟨rfl, fun _ => ⟨hacc, hbytes, ?_⟩, nofun⟩
    simp only [hbody, List.flatten_append, List.flatten_cons, List.flatten_nil, List.append_nil, List.foldl_append]

/-! ## From the start of a message on -/

/-- A message starts: M, or L when no message is open. -/
def Event.Starts (h : List (Event Key)) (e : Event Key) : Prop :=
  e.kind = some .M ∨ e.kind = some .L ∧ captured h = none

/-- The packets a message goes on with: D, C, H, R, T, N, U, L, B and whole offers. -/
def Event.inside (e : Event Key) : Bool :=
  match e.kind with
  | some .D | some .plain | some .L | some .B => true
  | some .O => (readOffer e.payload).isSome
  | _ => false

theorem event_of_packet {e : Event Key} {command : UInt8} {payload : Bytes} (h : e.packet = command :: payload) :
    e.kind = some (Command.of command) ∧ e.payload = payload := by
  rw [Event.kind, Event.payload, h]
  exact ⟨rfl, rfl⟩

/-- The first packet of a message. -/
theorem starts_gathers {h : List (Event Key)} {e : Event Key} {conn conn' : Conn Key} {command : UInt8} {payload : Bytes}
    {frames : List Frame} (hinv : conn.Follows h) (hstart : e.Starts h) (hpacket : e.packet = command :: payload)
    (hturn : Turn e.moment conn command payload (Command.of command) frames conn') :
    ∃ config, e.moment.active = some config ∧ conn'.state.Gathers config (payloadsOf .L [e]) (payloadsOf .B [e]) := by
  obtain ⟨hkind, hpayload⟩ := event_of_packet hpacket
  rw [payloadsOf_one, payloadsOf_one, hpayload]
  unfold Event.Starts at hstart
  rw [hkind] at hstart ⊢
  generalize Command.of command = kind at hturn hstart
  rcases hstart with hM | ⟨hL, hnone⟩
  · obtain rfl : kind = .M := by simpa using hM
    cases hturn with
    | @begin config hactive => exact ⟨config, hactive, gathers_begin config⟩
  · obtain rfl : kind = .L := by simpa using hL
    cases hturn with
    | header hopened hstate =>
      rcases openMessage_eq.1 hopened with ⟨hsome, -⟩ | ⟨-, config, hactive, rfl⟩
      · rw [hinv.config, hnone] at hsome; cases hsome
      · obtain ⟨st, hst, hreceived⟩ := receiveHeader_spec (.begin config) payload
        obtain rfl : st = _ := Exec.ok.inj (hst.symm.trans hstate)
        exact ⟨config, hactive, (gathers_begin config).field hreceived⟩

/-- A packet inside a message. -/
theorem inside_gathers {e : Event Key} {es : List (Event Key)} {config : RuntimeConfig Key} {conn conn' : Conn Key}
    {command : UInt8} {payload : Bytes} {frames : List Frame}
    (h : conn.state.Gathers config (payloadsOf .L es) (payloadsOf .B es)) (hinside : e.inside = true)
    (hpacket : e.packet = command :: payload)
    (hturn : Turn e.moment conn command payload (Command.of command) frames conn') :
    conn'.state.Gathers config (payloadsOf .L (es ++ [e])) (payloadsOf .B (es ++ [e])) := by
  obtain ⟨hkind, hpayload⟩ := event_of_packet hpacket
  rw [payloadsOf_append, payloadsOf_append, payloadsOf_one, payloadsOf_one, hpayload]
  rw [Event.inside, hkind] at hinside
  rw [hkind]
  generalize Command.of command = kind at hturn hinside
  have hother : kind ≠ .L → kind ≠ .B → conn'.state = conn.state →
      conn'.state.Gathers config (payloadsOf .L es ++ if some kind = some Command.L then [payload] else [])
        (payloadsOf .B es ++ if some kind = some Command.B then [payload] else []) := by
    intro hL hB hstate
    rw [if_neg (by simpa using hL), if_neg (by simpa using hB), List.append_nil, List.append_nil, hstate]
    exact h
  cases hturn with
  | offer => exact hother (by simp) (by simp) rfl
  | header hopened hstate =>
    rcases openMessage_eq.1 hopened with ⟨-, rfl⟩ | ⟨hnone, -⟩
    · obtain ⟨st, hst, hreceived⟩ := receiveHeader_spec conn.state payload
      obtain rfl : st = _ := Exec.ok.inj (hst.symm.trans hstate)
      simpa using h.field hreceived
    · rw [h.config] at hnone; cases hnone
  | body hstate => simpa using h.chunk hstate
  | defineMacros => exact hother (by simp) (by simp) rfl
  | plain => exact hother (by simp) (by simp) rfl
  | begin => cases hinside
  | finish => cases hinside
  | abort => cases hinside

/-- **While a message arrives, the state holds it and nothing else.** -/
theorem message_gathers {h mid : List (Event Key)} {start : Event Key} {conn : Conn Key}
    (hssl : Documented (h ++ start :: mid)) (hstart : start.Starts h) (hmid : ∀ e ∈ mid, e.inside = true)
    (hrun : after (h ++ start :: mid) = some conn) :
    ∃ config, start.moment.active = some config ∧
      conn.state.Gathers config (payloadsOf .L (start :: mid)) (payloadsOf .B (start :: mid)) := by
  induction mid using List.reverseRecOn generalizing conn with
  | nil =>
    obtain ⟨conn', command, payload, frames, hh, hpacket, hturn, -⟩ := turn_of_after hssl.last hrun
    exact starts_gathers (run_inv hssl.left hh) hstart hpacket hturn
  | append_singleton mid e ih =>
    have hassoc : h ++ start :: (mid ++ [e]) = h ++ start :: mid ++ [e] := by simp
    rw [hassoc] at hssl hrun
    obtain ⟨conn', command, payload, frames, hprev, hpacket, hturn, -⟩ := turn_of_after hssl.last hrun
    obtain ⟨config, hactive, hgathers⟩ := ih hssl.left (fun x hx => hmid x (by simp [hx])) hprev
    exact ⟨config, hactive, inside_gathers hgathers (hmid e (by simp)) hpacket hturn⟩

/-! ## What is signed -/

/-- A header action: `h` adds a header, `i` inserts one. -/
def Frame.isSignature (f : Frame) : Bool := f.command == byte 'h' || f.command == byte 'i'

@[simp] theorem acceptFrame_isSignature : acceptFrame.isSignature = false := by decide

theorem signatureFrame_isSignature (actions : UInt32) (value : Bytes) :
    (signatureFrame actions value).isSignature = true := by
  unfold signatureFrame
  split
  · rfl
  · rfl

/-- The frames of an E packet that the loop was waiting for. -/
theorem finish_of_answered {h : List (Event Key)} {e : Event Key} (hssl : Documented (h ++ [e]))
    (hkind : e.kind = some .E) {conn : Conn Key} (hafter : after h = some conn) :
    ∃ frames, Answered h e frames ∧ finishFrames e.moment.env conn.state conn.actions = .ok frames := by
  have hgoes : e.ends conn.state.config.isSome = false := by rw [Event.ends, hkind]
  obtain ⟨command, payload, frames, conn', hpacket, hturn⟩ := react_goes_on hssl.last hgoes
  have hanswered := answered_of_turn hssl hafter hpacket hturn
  have hcommand : Command.of command = .E := by
    rw [(event_of_packet hpacket).1] at hkind
    exact Option.some.inj hkind
  rw [hcommand] at hturn
  cases hturn with
  | finish hframes => exact ⟨frames, hanswered, hframes⟩

/-- Where a signature comes from: an open message without an error, and a `sign` that succeeded. -/
theorem signature_source {h : List (Event Key)} {e : Event Key} (hssl : Documented (h ++ [e])) (hkind : e.kind = some .E)
    {frames : List Frame} (hanswered : Answered h e frames) {f : Frame} (hf : f ∈ frames) (hsig : f.isSignature = true) :
    ∃ conn config signed, after h = some conn ∧ conn.state.error = none ∧ conn.state.config = some config ∧
      sign e.moment.env config conn.state.headers (conn.state.body.finish e.moment.env.ssl.sha256) = .ok signed ∧
      f = signatureFrame conn.actions signed.value := by
  cases hafter : after h with
  | none =>
    have hnone : Answered h e [] := ⟨by rw [(run_over hafter e).1]; simp, by simp⟩
    rw [hanswered.unique hnone] at hf
    cases hf
  | some conn =>
    obtain ⟨frames', hanswered', hframes⟩ := finish_of_answered hssl hkind hafter
    obtain rfl := hanswered.unique hanswered'
    rcases finishFrames_cases hframes with rfl | ⟨herr, -, config, signed, hconfig, hsign, rfl⟩
    · obtain rfl := List.mem_singleton.1 hf
      simp at hsig
    · refine ⟨conn, config, signed, rfl, herr, hconfig, hsign, ?_⟩
      rcases List.mem_cons.1 hf with rfl | hf
      · rfl
      · obtain rfl := List.mem_singleton.1 hf
        simp at hsig

/-- The end of a message that was gathered: what is answered. -/
theorem gathers_finish {env : Env Key} (hssl : env.ssl.Documented) (hworks : env.Works) {state : MessageState Key}
    {config : RuntimeConfig Key} {fields chunks : List Bytes} (h : state.Gathers config fields chunks)
    {actions : UInt32} {frames : List Frame} (hframes : finishFrames env state actions = .ok frames) :
    ((∃ f ∈ frames, f.isSignature = true) ↔
      ∃ headers, Acceptable fields headers ∧ actions &&& (actionAddHeader ||| actionChangeHeader) ≠ 0 ∧
        Eligible config headers) ∧
    ∀ f ∈ frames, f.isSignature = true → ∃ headers signed, Acceptable fields headers ∧
      sign env config headers (env.ssl.sha256 (BodyCanonicalizer.referenceBody chunks.flatten)) = .ok signed ∧
      f = signatureFrame actions signed.value ∧ frames = [f, acceptFrame] := by
  obtain ⟨hconfig, hkept, hfailed⟩ := h
  have hbody : state.error = none → state.body.finish env.ssl.sha256 =
      env.ssl.sha256 (BodyCanonicalizer.referenceBody chunks.flatten) := by
    intro herr
    rw [(hkept herr).2.2]
    rfl
  rcases finishFrames_cases hframes with rfl | ⟨herr, hperm, config', signed, hconfig', hsign, rfl⟩
  · refine ⟨⟨fun ⟨f, hf, hsig⟩ => ?_, fun ⟨headers, hacc, hperm, hel⟩ => ?_⟩, fun f hf hsig => ?_⟩
    · obtain rfl := List.mem_singleton.1 hf
      simp at hsig
    · -- nothing stood in the way, so the message was signed
      have herr : state.error = none := by
        by_contra hne
        exact hfailed (by simpa [Option.isSome_iff_ne_none] using hne) headers hacc
      obtain rfl : headers = state.headers := map_wire_inj (hacc.wire.symm.trans (hkept herr).1.wire)
      obtain ⟨signed, hsign⟩ := sign_works hssl hworks hel (state.body.finish env.ssl.sha256)
      have hcond : ¬ (state.error.isSome = true ∨ actions &&& (actionAddHeader ||| actionChangeHeader) = 0) := by
        simpa [herr] using hperm
      simp only [finishFrames, hconfig, if_neg hcond, hsign] at hframes
      exact absurd (congrArg List.length (Exec.ok.inj hframes)) (by simp)
    · obtain rfl := List.mem_singleton.1 hf
      simp at hsig
  · obtain rfl : config' = config := by rw [hconfig] at hconfig'; exact (Option.some.inj hconfig').symm
    rw [hbody herr] at hsign
    refine ⟨⟨fun _ => ⟨state.headers, (hkept herr).1, hperm, eligible_of_sign hsign⟩,
      fun _ => ⟨_, List.mem_cons_self, signatureFrame_isSignature _ _⟩⟩, fun f hf hsig => ?_⟩
    rcases List.mem_cons.1 hf with rfl | hf
    · exact ⟨state.headers, signed, (hkept herr).1, hsign, rfl, rfl⟩
    · obtain rfl := List.mem_singleton.1 hf
      simp at hsig

/-- **A message is signed exactly when it is eligible, over exactly what was received**, whatever
happened on the connection before. `h` is that history; the message is `start`, `mid` and the
end `e`, which the run reaches. The clock and OpenSSL work at the end. -/
theorem signed_iff_eligible {h mid : List (Event Key)} {start e : Event Key}
    (hssl : Documented (h ++ start :: mid ++ [e])) (hworks : e.moment.env.Works) (hstart : start.Starts h)
    (hmid : ∀ x ∈ mid, x.inside = true) (hend : e.kind = some .E) (hrun : (after (h ++ start :: mid)).isSome = true) :
    ∃ config frames, start.moment.active = some config ∧ Answered (h ++ start :: mid) e frames ∧
      ((∃ f ∈ frames, f.isSignature = true) ↔
        ∃ headers, Acceptable (payloadsOf .L (start :: mid)) headers ∧
          (agreed (h ++ start :: mid)).1 &&& (actionAddHeader ||| actionChangeHeader) ≠ 0 ∧
          ∃ header, headers.filter (·.is fromName) = [header] ∧
            fromDomain header.value = .ok (some config.domain.bytes)) ∧
      ∀ f ∈ frames, f.isSignature = true → ∃ headers signed, Acceptable (payloadsOf .L (start :: mid)) headers ∧
        sign e.moment.env config headers
          (e.moment.env.ssl.sha256 (BodyCanonicalizer.referenceBody (payloadsOf .B (start :: mid)).flatten)) = .ok signed ∧
        f = signatureFrame (agreed (h ++ start :: mid)).1 signed.value ∧ frames = [f, acceptFrame] := by
  obtain ⟨conn, hconn⟩ := Option.isSome_iff_exists.1 hrun
  obtain ⟨config, hactive, hgathers⟩ := message_gathers hssl.left hstart hmid hconn
  have hinv := run_inv hssl.left hconn
  obtain ⟨frames, hanswered, hframes⟩ := finish_of_answered hssl hend hconn
  obtain ⟨hiff, hall⟩ := gathers_finish hssl.last hworks hgathers hframes
  rw [hinv.actions] at hiff hall
  simp only [eligible_iff] at hiff
  exact ⟨config, frames, hactive, hanswered, hiff, hall⟩

end

/-- After a message whose field had no NUL, a good one is signed. -/
theorem signed_iff_eligible_reused :
    let h := [exampleOffer, exampleEvent 'M' [], exampleEvent 'L' (ascii "From"), exampleEvent 'E' []]
    let message := [exampleEvent 'M' [], exampleEvent 'L' exampleFrom.wire, exampleEvent 'B' (ascii "Hello" ++ CRLF)]
    ∃ frames, Answered (h ++ message) (exampleEvent 'E' []) frames ∧ ∃ f ∈ frames, f.isSignature = true := by
  intro h message
  have hssl : Documented (h ++ message ++ [exampleEvent 'E' []]) := by
    intro e he
    simp only [h, message, exampleOffer, List.mem_append, List.mem_cons, List.not_mem_nil, or_false] at he
    rcases he with ((rfl | rfl | rfl | rfl) | rfl | rfl | rfl) | rfl <;> exact exampleSsl_documented
  have hinside : ∀ x ∈ message.tail, x.inside = true := List.all_eq_true.1 (by decide)
  obtain ⟨config, frames, hactive, hanswered, hiff, -⟩ :=
    signed_iff_eligible hssl exampleEnv_works (Or.inl rfl) hinside rfl (by decide +kernel)
  obtain rfl : exampleConfig = config := Option.some.inj hactive
  exact ⟨frames, hanswered, hiff.2 ⟨[exampleFrom], ⟨by decide, by decide, by decide⟩, by decide +kernel,
    exampleFrom, by decide, by decide +kernel⟩⟩

end DkimLite
