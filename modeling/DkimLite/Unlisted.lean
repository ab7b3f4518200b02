import DkimLite.Permission
import DkimLite.Selection

/-!
# Fields that are not signed

A field whose name is not in `SIGNED_HEADERS` plays no part in a signature, so it must not keep a
message from being signed either. `unlisted_field_harmless` compares two runs: a message that is
signed, and the same message with one more L packet anywhere in it. They are answered with the
same frames.

The added field is one that `Header::new` accepts, whose name is letters, digits and hyphens. That
is less than the field names of RFC 5322, and one more name is enough to leave the message
unsigned (`underscore_field_unsigned`).
-/

namespace DkimLite
open Rust Text

section
variable {Key : Type}

/-! ## Runs that go on -/

/-- What a run goes on from went on. -/
theorem after_left {h es : List (Event Key)} (hssl : Documented (h ++ es)) (hafter : (after (h ++ es)).isSome = true) :
    (after h).isSome = true := by
  induction es using List.reverseRecOn with
  | nil => rwa [List.append_nil] at hafter
  | append_singleton es e ih =>
    rw [← List.append_assoc] at hssl hafter
    obtain ⟨conn', hconn'⟩ := Option.isSome_iff_exists.1 hafter
    obtain ⟨conn, -, -, -, hprev, -⟩ := turn_of_after hssl.last hconn'
    exact ih hssl.left (by rw [hprev]; rfl)

theorem goes_on {h : List (Event Key)} {e : Event Key} {conn : Conn Key} (hssl : e.moment.env.ssl.Documented)
    (hafter : after h = some conn) (hends : e.ends conn.state.config.isSome = false) : (after (h ++ [e])).isSome = true := by
  obtain ⟨command, payload, frames, conn', hpacket, hturn⟩ := react_goes_on hssl hends
  rw [(run_turn hssl hafter hpacket hturn).2]
  rfl

/-- A packet inside a message does not end the connection. -/
theorem inside_ends {e : Event Key} (h : e.inside = true) : e.ends true = false := by
  rw [Event.inside] at h
  rw [Event.ends]
  cases hkind : e.kind with
  | none => rw [hkind] at h; cases h
  | some kind =>
    rw [hkind] at h
    cases kind with
    | O =>
      have hoffer : (readOffer e.payload).isSome = true := h
      show (readOffer e.payload).isNone = false
      rw [← Option.not_isSome, hoffer]
      rfl
    | L => rfl
    | B => rfl
    | D => rfl
    | plain => rfl
    | M => cases h
    | E => cases h
    | A => cases h
    | close => cases h
    | unsupported => cases h

/-- **A message that can start goes on** through the packets inside it. -/
theorem message_goes_on {h mid : List (Event Key)} {start : Event Key} (hssl : Documented (h ++ start :: mid))
    (hafter : (after h).isSome = true) (hstart : start.Starts h) (hactive : start.moment.active.isSome = true)
    (hmid : ∀ e ∈ mid, e.inside = true) : (after (h ++ start :: mid)).isSome = true := by
  induction mid using List.reverseRecOn with
  | nil =>
    obtain ⟨conn, hconn⟩ := Option.isSome_iff_exists.1 hafter
    refine goes_on hssl.last hconn ?_
    have hnone : start.moment.active.isNone = false := by rw [← Option.not_isSome, hactive]; rfl
    rcases hstart with hkind | ⟨hkind, -⟩
    · simp only [Event.ends, hkind, hnone]
    · simp only [Event.ends, hkind, hnone, Bool.and_false]
  | append_singleton mid e ih =>
    have hassoc : h ++ start :: (mid ++ [e]) = h ++ start :: mid ++ [e] := by simp
    rw [hassoc] at hssl ⊢
    have hmid' : ∀ x ∈ mid, x.inside = true := fun x hx => hmid x (by simp [hx])
    obtain ⟨conn, hconn⟩ := Option.isSome_iff_exists.1 (ih hssl.left hmid')
    obtain ⟨config, -, hgathers⟩ := message_gathers hssl.left hstart hmid' hconn
    refine goes_on hssl.last hconn ?_
    rw [hgathers.config]
    exact inside_ends (hmid e (by simp))

/-! ## One more field -/

/-- A message with one more L packet in it starts where it did and holds the field beside the others. -/
theorem insert_packet {h pre post mid : List (Event Key)} {start x : Event Key} (hstart : start.Starts h)
    (hmid : ∀ e ∈ mid, e.inside = true) (hx : x.kind = some .L) (hsplit : start :: mid = pre ++ post)
    (hfirst : pre = [] → start.kind = some .L ∧ x.moment.active = start.moment.active) :
    ∃ start' mid', pre ++ x :: post = start' :: mid' ∧ start'.Starts h ∧ (∀ e ∈ mid', e.inside = true) ∧
      start'.moment.active = start.moment.active := by
  cases pre with
  | nil =>
    obtain ⟨hkind, hactive⟩ := hfirst rfl
    refine ⟨x, post, rfl, ?_, ?_, hactive⟩
    · rcases hstart with hM | ⟨-, hnone⟩
      · rw [hkind] at hM
        cases hM
      · exact Or.inr ⟨hx, hnone⟩
    · rw [List.nil_append] at hsplit
      intro e he
      rw [← hsplit] at he
      rcases List.mem_cons.1 he with rfl | he
      · rw [Event.inside, hkind]
      · exact hmid e he
  | cons s pre =>
    obtain ⟨rfl, hmidsplit⟩ := List.cons.inj hsplit
    refine ⟨start, pre ++ x :: post, rfl, hstart, fun e he => ?_, rfl⟩
    rcases List.mem_append.1 he with he | he
    · exact hmid e (by rw [hmidsplit]; simp [he])
    · rcases List.mem_cons.1 he with rfl | he
      · rw [Event.inside, hx]
      · exact hmid e (by rw [hmidsplit]; simp [he])

/-- The fields of a message, and with one more among them. -/
theorem insert_field {before behind : List Bytes} {headers : List Header} (extra : Header)
    (hacc : Acceptable (before ++ behind) headers) :
    ∃ hs hs', headers = hs ++ hs' ∧ before ++ extra.wire :: behind = (hs ++ extra :: hs').map Header.wire := by
  obtain ⟨hs, hs', rfl, hbefore, hbehind⟩ := List.map_eq_append_iff.1 hacc.wire.symm
  exact ⟨hs, hs', rfl, by rw [List.map_append, List.map_cons, hbefore, hbehind]⟩

theorem bytesOf_insert (hs hs' : List Header) (extra : Header) :
    bytesOf (hs ++ extra :: hs') = bytesOf (hs ++ hs') + (extra.name.length + extra.value.length) := by
  simp only [bytesOf, List.map_append, List.map_cons, List.sum_append, List.sum_cons]
  omega

/-- The end of a signed message, with what was signed. -/
theorem signed_state {h : List (Event Key)} {e : Event Key} (hssl : Documented (h ++ [e])) (hkind : e.kind = some .E)
    (hsigns : Signs h e) : ∃ conn config signed, after h = some conn ∧ conn.state.error = none ∧
      conn.state.config = some config ∧
      sign e.moment.env config conn.state.headers (conn.state.body.finish e.moment.env.ssl.sha256) = .ok signed ∧
      conn.actions &&& (actionAddHeader ||| actionChangeHeader) ≠ 0 ∧
      Answered h e [signatureFrame conn.actions signed.value, acceptFrame] := by
  obtain ⟨frames, hanswered, f, hf, hsig⟩ := hsigns
  obtain ⟨conn, -, -, hafter, -⟩ := signature_source hssl hkind hanswered hf hsig
  obtain ⟨frames', hanswered', hframes⟩ := finish_of_answered hssl hkind hafter
  obtain rfl := hanswered.unique hanswered'
  rcases finishFrames_cases hframes with rfl | ⟨herr, hperm, config, signed, hconfig, hsign, rfl⟩
  · obtain rfl := List.mem_singleton.1 hf
    simp at hsig
  · exact ⟨conn, config, signed, hafter, herr, hconfig, hsign, hperm, hanswered⟩

/-- What the end of an open message without an error is answered with, given what `sign` returns. -/
theorem answered_signed {h : List (Event Key)} {e : Event Key} (hssl : Documented (h ++ [e])) (hkind : e.kind = some .E)
    {conn : Conn Key} {config : RuntimeConfig Key} {signed : Signed} (hafter : after h = some conn)
    (herr : conn.state.error = none) (hconfig : conn.state.config = some config)
    (hperm : conn.actions &&& (actionAddHeader ||| actionChangeHeader) ≠ 0)
    (hsign : sign e.moment.env config conn.state.headers (conn.state.body.finish e.moment.env.ssl.sha256) = .ok signed) :
    Answered h e [signatureFrame conn.actions signed.value, acceptFrame] := by
  obtain ⟨frames, hanswered, hframes⟩ := finish_of_answered hssl hkind hafter
  have hcond : ¬ (conn.state.error.isSome = true ∨ conn.actions &&& (actionAddHeader ||| actionChangeHeader) = 0) := by
    simpa [herr] using hperm
  simp only [finishFrames, hconfig, if_neg hcond, hsign, Exec.ok.injEq] at hframes
  rwa [← hframes] at hanswered

/-- **A field that is not signed never prevents signing.** A message (`start` and `mid`, after any
history `h`) that is signed at `e` is answered the same with an L packet `x` more anywhere in it,
whose field is not of a listed name, if the limits leave room for it: with the same value of `sign`,
which has the same hashed bytes and list of names. A field in front of an implicit start finds the same
configuration. -/
theorem unlisted_field_harmless {h mid pre post : List (Event Key)} {start e x : Event Key} {extra : Header}
    (hssl : Documented (h ++ start :: mid ++ [e])) (hxssl : x.moment.env.ssl.Documented) (hstart : start.Starts h)
    (hmid : ∀ y ∈ mid, y.inside = true) (hend : e.kind = some .E) (hsigns : Signs (h ++ start :: mid) e)
    (hx : x.packet = byte 'L' :: extra.wire) (hextra : ∀ name ∈ signedHeaders, extra.is name = false)
    (hsplit : start :: mid = pre ++ post)
    (hfirst : pre = [] → start.kind = some .L ∧ x.moment.active = start.moment.active)
    (hroom : ∀ headers, payloadsOf .L (start :: mid) = headers.map Header.wire →
      headers.length < maxHeaders ∧ bytesOf headers + (extra.name.length + extra.value.length) ≤ maxHeaderBytes) :
    ∃ actions config headers headers' bodyHash signed,
      Answered (h ++ start :: mid) e [signatureFrame actions signed.value, acceptFrame] ∧
      Answered (h ++ (pre ++ x :: post)) e [signatureFrame actions signed.value, acceptFrame] ∧
      payloadsOf .L (start :: mid) = headers.map Header.wire ∧
      payloadsOf .L (pre ++ x :: post) = headers'.map Header.wire ∧
      sign e.moment.env config headers bodyHash = .ok signed ∧ sign e.moment.env config headers' bodyHash = .ok signed := by
  obtain ⟨conn, config, signed, hconn, herr, hconfig, hsign, hperm, hanswered⟩ := signed_state hssl hend hsigns
  obtain ⟨config', hactive, hgathers⟩ := message_gathers hssl.left hstart hmid hconn
  obtain rfl : config = config' := by rw [hgathers.config] at hconfig; exact (Option.some.inj hconfig).symm
  obtain ⟨hacc, -, hbody⟩ := hgathers.kept herr
  -- the other run
  have hxkind : x.kind = some .L := by rw [Event.kind, hx]; rfl
  have hxpayload : x.payload = extra.wire := by rw [Event.payload, hx]; rfl
  obtain ⟨start', mid', hother, hstart', hmid', hactive'⟩ := insert_packet hstart hmid hxkind hsplit hfirst
  have hssl' : Documented (h ++ start' :: mid' ++ [e]) := by
    rw [← hother]
    intro y hy
    simp only [List.mem_append, List.mem_cons] at hy
    rcases hy with (hy | hy | rfl | hy) | hy
    · exact hssl y (by simp [hy])
    · exact hssl y (by rw [hsplit]; simp [hy])
    · exact hxssl
    · exact hssl y (by rw [hsplit]; simp [hy])
    · exact hssl y (by simp at hy; simp [hy])
  have hreached : (after h).isSome = true := after_left hssl.left (by rw [hconn]; rfl)
  obtain ⟨conn', hconn'⟩ := Option.isSome_iff_exists.1
    (message_goes_on hssl'.left hreached hstart' (by rw [hactive', hactive]; rfl) hmid')
  obtain ⟨config', hactive'', hgathers'⟩ := message_gathers hssl'.left hstart' hmid' hconn'
  obtain rfl : config = config' := by rw [hactive', hactive] at hactive''; exact Option.some.inj hactive''
  -- its fields and its body
  have hL : payloadsOf .L (start' :: mid') = payloadsOf .L pre ++ extra.wire :: payloadsOf .L post := by
    rw [← hother, ← List.singleton_append, payloadsOf_append, payloadsOf_append, payloadsOf_one, if_pos hxkind, hxpayload,
      List.singleton_append]
  have hB : payloadsOf .B (start' :: mid') = payloadsOf .B (start :: mid) := by
    rw [← hother, hsplit, ← List.singleton_append, payloadsOf_append, payloadsOf_append, payloadsOf_append, payloadsOf_one,
      if_neg (by rw [hxkind]; simp), List.nil_append]
  have hacc0 := hacc
  rw [hsplit, payloadsOf_append] at hacc0
  obtain ⟨hs, hs', hheaders, hwire⟩ := insert_field extra hacc0
  obtain ⟨hcount, hbytes⟩ := hroom conn.state.headers hacc.wire
  have hacc' : Acceptable (payloadsOf .L (start' :: mid')) (hs ++ extra :: hs') := by
    refine ⟨hL.trans hwire, ?_, ?_⟩
    · have hlen : (hs ++ extra :: hs').length = (hs ++ hs').length + 1 := by simp; omega
      rw [hlen, ← hheaders]
      exact hcount
    · rw [bytesOf_insert, ← hheaders]
      exact hbytes
  have herr' : conn'.state.error = none := by
    by_contra hne
    exact hgathers'.failed (by simpa [Option.isSome_iff_ne_none] using hne) _ hacc'
  obtain ⟨hkept, -, hbody'⟩ := hgathers'.kept herr'
  have hheaders' : conn'.state.headers = hs ++ extra :: hs' := map_wire_inj (hkept.wire.symm.trans hacc'.wire)
  -- so it is signed alike
  have hactions : conn'.actions = conn.actions := by
    rw [(run_inv hssl'.left hconn').actions, (run_inv hssl.left hconn).actions, ← hother, hsplit]
    simp only [agreed, List.foldl_append, List.foldl_cons]
    rw [agreedStep_other (by rw [hxkind]; simp)]
  have hsame : sign e.moment.env config conn'.state.headers (conn'.state.body.finish e.moment.env.ssl.sha256) = .ok signed := by
    have hview : Rearrange (hs ++ hs') (hs ++ extra :: hs') := .unlisted hextra
    rw [hheaders', hbody', hB, ← hbody, ← hsign, hheaders]
    exact (sign_congr _ _ _ hview.view.1 hview.view.2).symm
  refine ⟨conn.actions, config, conn.state.headers, conn'.state.headers, _, signed, hanswered, ?_, hacc.wire, ?_, hsign, ?_⟩
  · rw [hother, ← hactions]
    exact answered_signed hssl' hend hconn' herr' hgathers'.config (by rw [hactions]; exact hperm) hsame
  · rw [hother]
    exact hkept.wire
  · rw [hbody', hB, ← hbody] at hsame
    exact hsame

end

def exampleSpam : Header := ⟨ascii "X-Spam", ascii "no", by decide, by decide⟩

/-- A message of one From field, after an offer. -/
def exampleMessage : List (Event Unit) := [exampleEvent 'M' [], exampleEvent 'L' exampleFrom.wire]

theorem exampleMessage_signs : Documented ([exampleOffer] ++ exampleMessage ++ [exampleEvent 'E' []]) ∧
    Signs ([exampleOffer] ++ exampleMessage) (exampleEvent 'E' []) := by
  have hssl : Documented ([exampleOffer] ++ exampleMessage ++ [exampleEvent 'E' []]) := by
    intro e he
    simp only [exampleMessage, exampleOffer, List.mem_append, List.mem_cons, List.not_mem_nil, or_false] at he
    rcases he with (rfl | rfl | rfl) | rfl <;> exact exampleSsl_documented
  exact ⟨hssl, signs_of_finish hssl rfl (by decide +kernel)⟩

/-- A field `X-Spam` in front of the From field. -/
theorem unlisted_field_harmless_spam : ∃ actions value,
    Answered ([exampleOffer] ++ ([exampleEvent 'M' []] ++ exampleEvent 'L' exampleSpam.wire :: [exampleEvent 'L' exampleFrom.wire]))
      (exampleEvent 'E' []) [signatureFrame actions value, acceptFrame] := by
  obtain ⟨hssl, hsigns⟩ := exampleMessage_signs
  have hinside : ∀ y ∈ [exampleEvent 'L' exampleFrom.wire], y.inside = true := List.all_eq_true.1 (by decide)
  have hroom : ∀ headers, payloadsOf .L exampleMessage = headers.map Header.wire →
      headers.length < maxHeaders ∧ bytesOf headers + (exampleSpam.name.length + exampleSpam.value.length) ≤ maxHeaderBytes := by
    intro headers h
    obtain rfl : [exampleFrom] = headers := map_wire_inj h
    exact ⟨by decide, by decide⟩
  have hx : (exampleEvent 'L' exampleSpam.wire).packet = byte 'L' :: exampleSpam.wire := rfl
  have hextra : ∀ name ∈ signedHeaders, exampleSpam.is name = false := fun name hname => by
    simpa using List.all_eq_true.1 (by decide : (signedHeaders.all fun name => !exampleSpam.is name) = true) name hname
  have hsplit : exampleMessage = [exampleEvent 'M' []] ++ [exampleEvent 'L' exampleFrom.wire] := rfl
  obtain ⟨actions, -, -, -, -, signed, -, hanswered, -⟩ := unlisted_field_harmless hssl exampleSsl_documented (Or.inl rfl)
    hinside rfl hsigns hx hextra hsplit (by simp) hroom
  exact ⟨actions, signed.value, hanswered⟩

/-- **A field name with an underscore**, legal in RFC 5322 and of no signed field, leaves the
message unsigned. -/
theorem underscore_field_unsigned : ∃ name value : Bytes,
    (name ≠ [] ∧ name.length ≤ 998 ∧ ∀ b ∈ name, 33 ≤ b.toNat ∧ b.toNat ≤ 126 ∧ b ≠ COLON) ∧ NUL ∉ value ∧
      (∀ listed ∈ signedHeaders, eqIgnoreAsciiCase name listed = false) ∧
      Signs ([exampleOffer] ++ exampleMessage) (exampleEvent 'E' []) ∧
      ¬ Signs ([exampleOffer] ++ (exampleMessage ++ [exampleEvent 'L' (name ++ [NUL] ++ value ++ [NUL])])) (exampleEvent 'E' []) := by
  have hlegal : ∀ b ∈ ascii "X_Spam", 33 ≤ b.toNat ∧ b.toNat ≤ 126 ∧ b ≠ COLON := fun b hb => by
    simpa [and_assoc] using List.all_eq_true.1
      (by decide : ((ascii "X_Spam").all fun b => 33 ≤ b.toNat && b.toNat ≤ 126 && b != COLON) = true) b hb
  have hunlisted : ∀ listed ∈ signedHeaders, eqIgnoreAsciiCase (ascii "X_Spam") listed = false := fun listed h => by
    simpa using List.all_eq_true.1
      (by decide : (signedHeaders.all fun listed => !eqIgnoreAsciiCase (ascii "X_Spam") listed) = true) listed h
  refine ⟨ascii "X_Spam", ascii "no", ⟨by decide, by decide, hlegal⟩, by decide, hunlisted, exampleMessage_signs.2, fun hsigns => ?_⟩
  have hssl : Documented ([exampleOffer] ++ (exampleMessage ++ [exampleEvent 'L' (ascii "X_Spam" ++ [NUL] ++ ascii "no" ++ [NUL])]) ++
      [exampleEvent 'E' []]) := by
    intro e he
    simp only [exampleMessage, exampleOffer, List.mem_append, List.mem_cons, List.not_mem_nil, or_false] at he
    rcases he with (rfl | (rfl | rfl) | rfl) | rfl <;> exact exampleSsl_documented
  obtain ⟨frames, hanswered, f, hf, hsig⟩ := hsigns
  obtain ⟨conn, -, -, hafter, herr, -⟩ := signature_source hssl rfl hanswered hf hsig
  have hfailed : failed ([exampleOffer] ++ (exampleMessage ++
      [exampleEvent 'L' (ascii "X_Spam" ++ [NUL] ++ ascii "no" ++ [NUL])])) = true := by decide +kernel
  rw [failed, hafter, Option.any_some, herr] at hfailed
  cases hfailed

end DkimLite
