import DkimLite.Message

/-!
# What a signature covers, in any order of packets

Every body byte since the last boundary (M, A or E) should be in the body hash of a signature,
and a message one packet of which was rejected should not be signed. The code keeps both in
every run of regular packets (`regular_runs_cover`). Two kinds of packet are not regular: an E
with a payload, which the `E` arm does not look at, and an L that starts a message after a B was
rejected for coming too early, since `begin` then drops the recorded error.
`late_and_early_body_signed` has a run for each in which it leads to a signature.
-/

namespace DkimLite
open Rust Text

section
variable {Key : Type}

/-! ## Boundaries -/

/-- M, A and E end whatever was there before. -/
def Event.boundary (e : Event Key) : Bool := e.kind = some .M || e.kind = some .A || e.kind = some .E

/-- The packets since the last boundary. -/
def sinceBoundary (h : List (Event Key)) : List (Event Key) := h.rtakeWhile fun e => !e.boundary

theorem sinceBoundary_boundary (h : List (Event Key)) {e : Event Key} (he : e.boundary = true) :
    sinceBoundary (h ++ [e]) = [] :=
  List.rtakeWhile_concat_neg _ _ _ (by simp [he])

theorem sinceBoundary_inner (h : List (Event Key)) {e : Event Key} (he : e.boundary = false) :
    sinceBoundary (h ++ [e]) = sinceBoundary h ++ [e] :=
  List.rtakeWhile_concat_pos _ _ _ (by simp [he])

/-- The body received when `e` arrives: the B payloads since the boundary, and the payload of the
E packet itself, the last chunk of the body. -/
def bodyReceived (h : List (Event Key)) (e : Event Key) : Bytes :=
  (payloadsOf .B (sinceBoundary h)).flatten ++ e.payload

/-- No packet since the boundary was rejected. -/
def Unfailed (h : List (Event Key)) : Prop :=
  ∀ pre mid, h = pre ++ mid → (∀ e ∈ mid, e.boundary = false) → failed pre = false

/-! ## What is claimed of a signature -/

/-- `e` is answered with a signature. -/
def Signs (h : List (Event Key)) (e : Event Key) : Prop :=
  ∃ frames, Answered h e frames ∧ ∃ f ∈ frames, f.isSignature = true

/-- The body hash in a signature written for `e` is that of the whole body received. -/
def Covers (h : List (Event Key)) (e : Event Key) : Prop :=
  ∀ frames, Answered h e frames → ∀ f ∈ frames, f.isSignature = true → ∃ conn config signed, after h = some conn ∧
    conn.state.body.flush.hasher = BodyCanonicalizer.referenceBody (bodyReceived h e) ∧
    sign e.moment.env config conn.state.headers (conn.state.body.finish e.moment.env.ssl.sha256) = .ok signed ∧
    f = signatureFrame conn.actions signed.value

/-- Every signature of the run covers the body. -/
def CoversAll (es : List (Event Key)) : Prop :=
  ∀ h e rest, es = h ++ e :: rest → e.kind = some .E → Covers h e

/-- No message of the run is signed that was rejected in part. -/
def StaysFailed (es : List (Event Key)) : Prop :=
  ∀ h e rest, es = h ++ e :: rest → e.kind = some .E → Signs h e → Unfailed h

/-! ## Regular packets -/

/-- An E packet has no payload, unless the message is accepted unsigned anyway; an L packet that
starts a message finds no recorded error. -/
structure Event.Regular (h : List (Event Key)) (e : Event Key) : Prop where
  ending : e.kind = some .E → e.payload = [] ∨ captured h = none ∨ failed h = true
  start : e.kind = some .L → captured h = none → failed h = false

def RegularRun (es : List (Event Key)) : Prop := ∀ h e rest, es = h ++ e :: rest → e.Regular h

theorem RegularRun.init {es : List (Event Key)} {e : Event Key} (h : RegularRun (es ++ [e])) : RegularRun es :=
  fun pre x rest heq => h pre x (rest ++ [e]) (by simp [heq])

theorem RegularRun.snoc {es : List (Event Key)} {e : Event Key} (h : RegularRun es) (he : e.Regular es) :
    RegularRun (es ++ [e]) := by
  intro pre x rest heq
  rcases List.eq_nil_or_concat rest with rfl | ⟨rest, y, rfl⟩
  · obtain ⟨rfl, hx⟩ := List.append_inj' heq rfl
    obtain rfl : e = x := by simpa using hx
    exact he
  · rw [List.concat_eq_append, ← List.cons_append, ← List.append_assoc] at heq
    exact h pre x rest (List.append_inj' heq rfl).1

/-- The state in a regular run. -/
structure MessageState.Covered (state : MessageState Key) (h : List (Event Key)) : Prop where
  idle : state.config = none → state.body = .default
  body : state.error = none → state.body =
    (payloadsOf .B (sinceBoundary h)).flatten.foldl BodyCanonicalizer.referenceStep .default
  unfailed : state.error = none → Unfailed h

theorem failed_of_after {h : List (Event Key)} {conn : Conn Key} (hafter : after h = some conn) :
    failed h = conn.state.error.isSome := by
  rw [failed, hafter]
  rfl

theorem unfailed_snoc {h : List (Event Key)} {e : Event Key} (hprev : e.boundary = true ∨ Unfailed h)
    (hfailed : failed (h ++ [e]) = false) : Unfailed (h ++ [e]) := by
  intro pre mid heq hmid
  rcases List.eq_nil_or_concat mid with rfl | ⟨mid, x, rfl⟩
  · rw [List.append_nil] at heq
    rw [← heq, hfailed]
  · rw [List.concat_eq_append, ← List.append_assoc] at heq
    obtain ⟨hpre, hx⟩ := List.append_inj' heq rfl
    obtain rfl : e = x := by simpa using hx
    rcases hprev with he | hprev
    · rw [hmid e (by simp)] at he
      cases he
    · exact hprev pre mid hpre fun y hy => hmid y (by simp [hy])

/-- A boundary leaves a fresh state. -/
theorem covered_boundary {h : List (Event Key)} {e : Event Key} {conn' : Conn Key} (he : e.boundary = true)
    (hafter : after (h ++ [e]) = some conn') (hbody : conn'.state.body = .default) :
    conn'.state.Covered (h ++ [e]) where
  idle _ := hbody
  body _ := by rw [sinceBoundary_boundary h he]; exact hbody
  unfailed herr := unfailed_snoc (Or.inl he) (by rw [failed_of_after hafter, herr]; rfl)

/-- A packet that leaves the body alone, or fails the message. -/
theorem covered_inner {h : List (Event Key)} {e : Event Key} {conn conn' : Conn Key} (he : e.boundary = false)
    (hB : e.kind ≠ some .B) (hafter : after (h ++ [e]) = some conn') (hcov : conn.state.Covered h)
    (hconfig : conn'.state.config = none → conn.state.config = none) (hbody : conn'.state.body = conn.state.body)
    (herror : conn'.state.error = none → conn.state.error = none) : conn'.state.Covered (h ++ [e]) where
  idle hc := by rw [hbody]; exact hcov.idle (hconfig hc)
  body herr := by
    rw [sinceBoundary_inner h he, payloadsOf_append, payloadsOf_one, if_neg hB, List.append_nil, hbody]
    exact hcov.body (herror herr)
  unfailed herr := unfailed_snoc (Or.inr (hcov.unfailed (herror herr))) (by rw [failed_of_after hafter, herr]; rfl)

theorem Received.body_error {state st : MessageState Key} {payload : Bytes} (h : Received state payload st) :
    st.body = state.body ∧ (st.error = none → state.error = none) := by
  cases h with
  | skipped herr => exact ⟨rfl, id⟩
  | added herr => exact ⟨rfl, id⟩
  | rejected herr => exact ⟨rfl, nofun⟩

/-- **The step**: a regular packet keeps the state covered. -/
theorem MessageState.Covered.turn {h : List (Event Key)} {e : Event Key} {conn conn' : Conn Key} {command : UInt8}
    {payload : Bytes} {frames : List Frame} (hcov : conn.state.Covered h) (hinv : conn.Follows h)
    (hbefore : after h = some conn) (hafter : after (h ++ [e]) = some conn') (hreg : e.Regular h)
    (hpacket : e.packet = command :: payload)
    (hturn : Turn e.moment conn command payload (Command.of command) frames conn') :
    conn'.state.Covered (h ++ [e]) := by
  obtain ⟨hkind, hpayload⟩ := event_of_packet hpacket
  have hinner : ∀ {kind}, e.kind = some kind → kind ≠ .M → kind ≠ .A → kind ≠ .E → e.boundary = false := by
    intro kind hk hM hA hE
    simp [Event.boundary, hk, hM, hA, hE]
  generalize Command.of command = kind at hkind hturn
  cases hturn with
  | offer => exact covered_inner (hinner hkind (by simp) (by simp) (by simp)) (by simp [hkind]) hafter hcov id rfl id
  | begin => exact covered_boundary (by simp [Event.boundary, hkind]) hafter rfl
  | @header opened state hopened hstate =>
    obtain ⟨st, hst, hreceived⟩ := receiveHeader_spec opened payload
    obtain rfl : st = state := Exec.ok.inj (hst.symm.trans hstate)
    obtain ⟨hbody, herror⟩ := hreceived.body_error
    refine covered_inner (hinner hkind (by simp) (by simp) (by simp)) (by simp [hkind]) hafter hcov ?_ ?_ ?_
    all_goals rcases openMessage_eq.1 hopened with ⟨-, rfl⟩ | ⟨hnone, config, -, rfl⟩
    · exact fun hc => by rw [← hreceived.config]; exact hc
    · exact fun _ => hnone
    · exact hbody
    · exact hbody.trans (hcov.idle hnone).symm
    · exact herror
    · -- no error was recorded, so none is lost
      intro _
      have hfailed := hreg.start hkind (by rw [← hinv.config, hnone])
      rw [failed_of_after hbefore] at hfailed
      simpa using hfailed
  | body hstate =>
    rw [receiveBody_eq] at hstate
    have hinside := hinner hkind (by simp) (by simp) (by simp)
    have hsince : payloadsOf .B (sinceBoundary (h ++ [e])) = payloadsOf .B (sinceBoundary h) ++ [payload] := by
      rw [sinceBoundary_inner h hinside, payloadsOf_append, payloadsOf_one, if_pos hkind, hpayload]
    cases hconfig : conn.state.config with
    | none =>
      rw [hconfig, Option.isNone_none, if_pos rfl] at hstate
      cases hstate
      refine ⟨fun _ => ?_, fun herr => ?_, fun herr => ?_⟩
      · rw [← hcov.idle hconfig]
        unfold MessageState.fail
        split <;> rfl
      all_goals exact absurd herr (fail_error _ _)
    | some config =>
      rw [hconfig, Option.isNone_some, if_neg (by simp)] at hstate
      cases herr : conn.state.error with
      | some error =>
        rw [herr, Option.isNone_some, if_neg (by simp)] at hstate
        cases hstate
        exact ⟨fun hc => absurd hc (by simp [hconfig]), fun hc => absurd hc (by simp [herr]),
          fun hc => absurd hc (by simp [herr])⟩
      | none =>
        have hunfailed := hcov.unfailed herr
        have hbody := hcov.body herr
        rw [herr, Option.isNone_none, if_pos rfl] at hstate
        cases hstate
        refine ⟨fun hc => absurd hc (by simp), fun _ => ?_, fun _ => ?_⟩
        · rw [hsince, List.flatten_append, List.foldl_append, ← hbody]
          simp
        · exact unfailed_snoc (Or.inr hunfailed) (by rw [failed_of_after hafter]; rfl)
  | finish => exact covered_boundary (by simp [Event.boundary, hkind]) hafter rfl
  | abort => exact covered_boundary (by simp [Event.boundary, hkind]) hafter rfl
  | defineMacros => exact covered_inner (hinner hkind (by simp) (by simp) (by simp)) (by simp [hkind]) hafter hcov id rfl id
  | plain => exact covered_inner (hinner hkind (by simp) (by simp) (by simp)) (by simp [hkind]) hafter hcov id rfl id

/-- The run: by induction on the packets, the last one first. -/
theorem covered_run {h : List (Event Key)} (hssl : Documented h) (hreg : RegularRun h) {conn : Conn Key}
    (hafter : after h = some conn) : conn.state.Covered h := by
  induction h using List.reverseRecOn generalizing conn with
  | nil =>
    have hfailed : failed ([] : List (Event Key)) = false := by simp [failed, after, runOf, onPackets]
    cases hafter
    refine ⟨fun _ => rfl, fun _ => rfl, fun _ pre mid heq _ => ?_⟩
    obtain ⟨rfl, -⟩ := List.append_eq_nil_iff.1 heq.symm
    exact hfailed
  | append_singleton h e ih =>
    obtain ⟨conn', command, payload, frames, hbefore, hpacket, hturn, -⟩ := turn_of_after hssl.last hafter
    exact (ih hssl.left hreg.init hbefore).turn (run_inv hssl.left hbefore) hbefore hafter (hreg h e [] (by simp))
      hpacket hturn

/-- In a regular run a signature comes from a loop that waits with an open message, no error and a covered state. -/
theorem signature_covered {es h rest : List (Event Key)} {e : Event Key} (hssl : Documented es) (hreg : RegularRun es)
    (heq : es = h ++ e :: rest) (hkind : e.kind = some .E) {frames : List Frame} (hanswered : Answered h e frames) {f : Frame}
    (hf : f ∈ frames) (hsig : f.isSignature = true) :
    ∃ conn config signed, after h = some conn ∧ conn.state.error = none ∧ captured h ≠ none ∧ conn.state.Covered h ∧
      sign e.moment.env config conn.state.headers (conn.state.body.finish e.moment.env.ssl.sha256) = .ok signed ∧
      f = signatureFrame conn.actions signed.value := by
  have hdoc : Documented (h ++ [e]) := by
    rw [show es = h ++ [e] ++ rest by simp [heq]] at hssl
    exact hssl.left
  have hregular : RegularRun h := fun pre x tail htail => hreg pre x (tail ++ e :: rest) (by simp [heq, htail])
  obtain ⟨conn, config, signed, hafter, herr, hconfig, hsign, hframe⟩ := signature_source hdoc hkind hanswered hf hsig
  have hopen : captured h ≠ none := by
    rw [← (run_inv hdoc.left hafter).config, hconfig]
    simp
  exact ⟨conn, config, signed, hafter, herr, hopen, covered_run hdoc.left hregular hafter, hsign, hframe⟩

/-- **In a run of regular packets every signature covers the body received, and no message that
failed is signed.** -/
theorem regular_runs_cover (es : List (Event Key)) (hssl : Documented es) (hreg : RegularRun es) :
    CoversAll es ∧ StaysFailed es := by
  constructor
  · intro h e rest heq hkind frames hanswered f hf hsig
    obtain ⟨conn, config, signed, hafter, herr, hopen, hcov, hsign, hframe⟩ :=
      signature_covered hssl hreg heq hkind hanswered hf hsig
    refine ⟨conn, config, signed, hafter, ?_, hsign, hframe⟩
    have hfailed : failed h ≠ true := by rw [failed_of_after hafter, herr]; simp
    have hpayload : e.payload = [] :=
      ((hreg h e rest heq).ending hkind).resolve_right (not_or.2 ⟨hopen, hfailed⟩)
    rw [hcov.body herr, bodyReceived, hpayload, List.append_nil]
    rfl
  · rintro h e rest heq hkind ⟨frames, hanswered, f, hf, hsig⟩
    obtain ⟨conn, -, -, -, herr, -, hcov, -⟩ := signature_covered hssl hreg heq hkind hanswered hf hsig
    exact hcov.unfailed herr

end

/-! ## Two runs that are not regular -/

/-- The last chunk of the body comes with E. -/
def lateBody : List (Event Unit) := [exampleOffer, exampleEvent 'L' exampleFrom.wire]

/-- A chunk of the body comes before the message has started. -/
def earlyBody : List (Event Unit) :=
  [exampleOffer, exampleEvent 'B' (ascii "Hello" ++ CRLF), exampleEvent 'L' exampleFrom.wire]

/-- An early chunk of a message that is not begun by an L, but by the M after it. -/
theorem regular_runs_cover_begun :
    let es := [exampleOffer, exampleEvent 'B' (ascii "x"), exampleEvent 'M' [], exampleEvent 'L' exampleFrom.wire,
      exampleEvent 'B' (ascii "Hello"), exampleEvent 'E' []]
    CoversAll es ∧ StaysFailed es := by
  intro es
  have hssl : Documented es := by
    intro e he
    simp only [es, exampleOffer, List.mem_cons, List.not_mem_nil, or_false] at he
    rcases he with rfl | rfl | rfl | rfl | rfl | rfl <;> exact exampleSsl_documented
  have hreg : RegularRun es :=
    have h0 : RegularRun ([] : List (Event Unit)) := fun pre e rest heq => absurd heq (by simp)
    have h1 := h0.snoc (e := exampleOffer) ⟨by decide, by decide⟩
    have h2 := h1.snoc (e := exampleEvent 'B' (ascii "x")) ⟨by decide, by decide⟩
    have h3 := h2.snoc (e := exampleEvent 'M' []) ⟨by decide, by decide⟩
    have h4 := h3.snoc (e := exampleEvent 'L' exampleFrom.wire) ⟨by decide, fun _ hnone => by cases hnone⟩
    have h5 := h4.snoc (e := exampleEvent 'B' (ascii "Hello")) ⟨by decide, by decide⟩
    h5.snoc ⟨fun _ => Or.inl rfl, by decide⟩
  exact regular_runs_cover es hssl hreg

/-- What an example run answers with a signature. -/
def exampleReply : List Frame :=
  match sign exampleEnv exampleConfig [exampleFrom] emptyDigest with
  | .ok signed => [signatureFrame 0x11 signed.value, acceptFrame]
  | _ => []

theorem exampleReply_proper : ∀ f ∈ exampleReply, f.Proper := by
  unfold exampleReply
  cases hsign : sign exampleEnv exampleConfig [exampleFrom] emptyDigest with
  | ok signed =>
    intro f hf
    rcases List.mem_cons.1 hf with rfl | hf
    · exact signatureFrame_proper (length_signed_le exampleSsl_documented hsign) _
    · obtain rfl := List.mem_singleton.1 hf
      exact ⟨by decide, by decide⟩
  | err e => simp
  | panic => simp

theorem exampleReply_signs : ∃ f ∈ exampleReply, f.isSignature = true := by
  have h : exampleReply.any Frame.isSignature = true := by decide +kernel
  simpa using h

/-- **Two runs in which a signature covers less than was received**: the `x` that comes with E is
not hashed, and the message whose early chunk was rejected is signed all the same. -/
theorem late_and_early_body_signed :
    ¬ CoversAll (lateBody ++ [exampleEvent 'E' (ascii "x")]) ∧
      ¬ CoversAll (earlyBody ++ [exampleEvent 'E' []]) ∧ ¬ StaysFailed (earlyBody ++ [exampleEvent 'E' []]) := by
  have hlate : Signs lateBody (exampleEvent 'E' (ascii "x")) :=
    ⟨exampleReply, ⟨by decide +kernel, exampleReply_proper⟩, exampleReply_signs⟩
  have hearly : Signs earlyBody (exampleEvent 'E' []) :=
    ⟨exampleReply, ⟨by decide +kernel, exampleReply_proper⟩, exampleReply_signs⟩
  have huncovered : ∀ {h : List (Event Unit)} {e : Event Unit}, ((after h).any fun conn =>
      conn.state.body.flush.hasher != BodyCanonicalizer.referenceBody (bodyReceived h e)) = true → Signs h e →
        ¬ Covers h e := by
    rintro h e hany ⟨frames, hanswered, f, hf, hsig⟩ hcovers
    obtain ⟨conn, hafter, hne⟩ := (Option.any_eq_true _ _).1 hany
    obtain ⟨conn', -, -, hafter', hsame, -⟩ := hcovers frames hanswered f hf hsig
    obtain rfl : conn = conn' := Option.some.inj (hafter.symm.trans hafter')
    exact absurd hsame (by simpa using hne)
  refine ⟨fun h => ?_, fun h => ?_, fun h => ?_⟩
  · exact huncovered (by decide +kernel) hlate (h lateBody _ [] rfl rfl)
  · exact huncovered (by decide +kernel) hearly (h earlyBody _ [] rfl rfl)
  · have hfailed : failed (earlyBody.take 2) = true := by decide +kernel
    have := h earlyBody _ [] rfl rfl hearly (earlyBody.take 2) (earlyBody.drop 2) rfl (List.forall_mem_singleton.2 rfl)
    rw [hfailed] at this
    cases this

end DkimLite
