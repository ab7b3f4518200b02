import DkimLite.MilterRun

/-!
# What is answered, over whole runs

Milter is a strict sequence of requests and replies, so one frame too many or too few puts the
MTA out of step for good. `Reply` is the discipline, said from the packets alone: what the next
packet is answered with, given those before it. `Replies` runs it over a list of packets, up to
the one at which the connection ends. `replies_disciplined` says that the bytes written are the
frames of such a list of replies and nothing else.
-/

namespace DkimLite
open Rust Text

/-! ## Header actions -/

/-- NUL-terminated strings, one after another. -/
def cStrings (bs : Bytes) : Option (List Bytes) :=
  if (bs.splitOn NUL).getLast? = some [] then some (bs.splitOn NUL).dropLast else none

theorem cStrings_two {a b : Bytes} (ha : NUL ∉ a) (hb : NUL ∉ b) : cStrings (a ++ [NUL] ++ b ++ [NUL]) = some [a, b] := by
  have hsplit : (a ++ [NUL] ++ b ++ [NUL]).splitOn NUL = [a, b, []] := by
    have h : ([NUL].intercalate [a, b, []]).splitOn NUL = [a, b, []] :=
      List.splitOn_intercalate NUL (by simp [ha, hb]) (by simp)
    simpa [List.intercalate_cons_cons] using h
  rw [cStrings, hsplit]
  rfl

/-- The frame that has the MTA add a signature: `i` at index 0 when changing headers was agreed,
else `h`. -/
def IsSignatureAction (actions : UInt32) (value : Bytes) (f : Frame) : Prop :=
  if actions &&& actionChangeHeader ≠ 0 then
    f.command = byte 'i' ∧ ∃ strings, f.payload = [0, 0, 0, 0] ++ strings ∧ cStrings strings = some [dkimSignatureName, value]
  else f.command = byte 'h' ∧ cStrings f.payload = some [dkimSignatureName, value]

theorem cStrings_signature {value : Bytes} (h : NUL ∉ value) :
    cStrings (signatureStrings value) = some [dkimSignatureName, value] :=
  cStrings_two (by decide) h

theorem signatureFrame_action {value : Bytes} (h : NUL ∉ value) (actions : UInt32) :
    IsSignatureAction actions value (signatureFrame actions value) := by
  unfold IsSignatureAction signatureFrame
  split
  · exact ⟨rfl, _, rfl, cStrings_signature h⟩
  · exact ⟨rfl, cStrings_signature h⟩

/-! ## The discipline -/

/-- The only commands a reply has, and a length that fits its four bytes. -/
def Frame.Proper (f : Frame) : Prop :=
  f.command ∈ [byte 'O', byte 'c', byte 'i', byte 'h', byte 'a'] ∧ 1 + f.payload.length < 0x100000000

/-- The first frame of a text and what follows it. -/
theorem encode_inj {f g : Frame} {s t : Bytes} (hf : f.Proper) (hg : g.Proper) (h : f.encode ++ s = g.encode ++ t) :
    f = g ∧ s = t := by
  have hpos : ∀ f : Frame, f.Proper → (UInt32.ofNat (1 + f.payload.length)).toNat = 1 + f.payload.length :=
    fun f hf => UInt32.toNat_ofNat_of_lt' hf.2
  simp only [Frame.encode, List.append_assoc] at h
  obtain ⟨hlen, hrest⟩ := List.append_inj h rfl
  have hlen' : f.payload.length = g.payload.length := by
    have := congrArg UInt32.toNat (toBeBytes_inj hlen)
    rw [hpos f hf, hpos g hg] at this
    omega
  obtain ⟨hcommand, hpayload⟩ := List.cons.inj hrest
  obtain ⟨hpayload, hst⟩ := List.append_inj hpayload hlen'
  exact ⟨by cases f; cases g; cases hcommand; cases hpayload; rfl, hst⟩

/-- **The bytes written are the frames of one list only.** -/
theorem encodeAll_inj : ∀ {fs gs : List Frame}, (∀ f ∈ fs, f.Proper) → (∀ f ∈ gs, f.Proper) →
    encodeAll fs = encodeAll gs → fs = gs
  | [], [], _, _, _ => rfl
  | [], g :: gs, _, _, h => by simp [Frame.encode, toBeBytes] at h
  | f :: fs, [], _, _, h => by simp [Frame.encode, toBeBytes] at h
  | f :: fs, g :: gs, hfs, hgs, h => by
    rw [encodeAll_cons, encodeAll_cons] at h
    obtain ⟨rfl, hrest⟩ := encode_inj (hfs f (by simp)) (hgs g (by simp)) h
    rw [encodeAll_inj (fun x hx => hfs x (by simp [hx])) (fun x hx => hgs x (by simp [hx])) hrest]

section
variable {Key : Type}

/-- The message is to be accepted unsigned: a packet of it was rejected. -/
def failed (h : List (Event Key)) : Bool := (after h).any fun conn => conn.state.error.isSome

/-- What `e` is answered with after the packets `h`. -/
def Reply (h : List (Event Key)) (e : Event Key) (frames : List Frame) : Prop :=
  match e.packet with
  | [] => False
  | command :: payload =>
    match Command.of command with
    | .O => ∃ version offered flags, readOffer payload = some (version, offered, flags) ∧
        frames = [offerFrame (min version 6) (offered &&& (actionAddHeader ||| actionChangeHeader))
          (if version < 6 then 0 else flags &&& supportedNoReply)]
    | .M | .L | .B | .plain => frames = if (agreed h).2 &&& noReplyFlag command = 0 then [continueFrame] else []
    | .E => frames = [acceptFrame] ∨
        failed h = false ∧ ∃ config headers bodyHash signed f, captured h = some config ∧
          sign e.moment.env config headers bodyHash = .ok signed ∧
          IsSignatureAction (agreed h).1 signed.value f ∧ frames = [f, acceptFrame]
    | .A | .D => frames = []
    | .close | .unsupported => False

/-- The replies to the packets `es` that come after `h`, one list of frames for each packet up to
the one that ends the connection. -/
def Replies : List (Event Key) → List (Event Key) → List (List Frame) → Prop
  | _, [], replies => replies = []
  | h, e :: es, replies =>
    if e.ends (captured h).isSome then replies = []
    else ∃ frames rest, replies = frames :: rest ∧ Reply h e frames ∧ Replies (h ++ [e]) es rest

theorem finishFrames_cases {env : Env Key} {state : MessageState Key} {actions : UInt32} {frames : List Frame}
    (h : finishFrames env state actions = .ok frames) :
    frames = [acceptFrame] ∨ state.error = none ∧ actions &&& (actionAddHeader ||| actionChangeHeader) ≠ 0 ∧
      ∃ config signed, state.config = some config ∧
        sign env config state.headers (state.body.finish env.ssl.sha256) = .ok signed ∧
        frames = [signatureFrame actions signed.value, acceptFrame] := by
  unfold finishFrames at h
  cases hc : state.config with
  | none => rw [hc] at h; cases h; exact Or.inl rfl
  | some config =>
    rw [hc] at h
    simp only at h
    split at h
    case isTrue => cases h; exact Or.inl rfl
    case isFalse hno =>
      obtain ⟨herr, hperm⟩ := not_or.1 hno
      cases hs : sign env config state.headers (state.body.finish env.ssl.sha256) with
      | ok signed =>
        rw [hs] at h
        cases h
        exact Or.inr ⟨by simpa using herr, hperm, config, signed, rfl, hs, rfl⟩
      | err e => rw [hs] at h; cases h; exact Or.inl rfl
      | panic => rw [hs] at h; cases h

theorem signatureFrame_proper {value : Bytes} (h : value.length ≤ 10000) (actions : UInt32) :
    (signatureFrame actions value).Proper := by
  have hlen := length_signatureStrings_le h
  unfold signatureFrame
  split
  · exact ⟨by simp, by simp only [List.length_append, length_toBeBytes]; omega⟩
  · exact ⟨by simp, by simp only; omega⟩

theorem continueFrames_proper (protocol : UInt32) (command : UInt8) : ∀ f ∈ continueFrames protocol command, f.Proper := by
  intro f hf
  unfold continueFrames at hf
  split at hf
  · obtain rfl := List.mem_singleton.1 hf
    exact ⟨by decide, by decide⟩
  · cases hf

/-- The letters of the commands that start or fill a message. -/
theorem Command.of_letter (command : UInt8) : (Command.of command = .M → command = byte 'M') ∧
    (Command.of command = .L → command = byte 'L') ∧ (Command.of command = .B → command = byte 'B') :=
  forall_uint8 (P := fun b => (Command.of b = .M → b = byte 'M') ∧ (Command.of b = .L → b = byte 'L') ∧
    (Command.of b = .B → b = byte 'B')) (by decide +kernel) command

/-- **The step**: a turn answers as the discipline says. -/
theorem reply_of_turn {h : List (Event Key)} {e : Event Key} {conn conn' : Conn Key} {command : UInt8} {payload : Bytes}
    {frames : List Frame} (hssl : e.moment.env.ssl.Documented) (hafter : after h = some conn) (hinv : conn.Follows h)
    (hpacket : e.packet = command :: payload)
    (hturn : Turn e.moment conn command payload (Command.of command) frames conn') :
    Reply h e frames ∧ ∀ f ∈ frames, f.Proper := by
  obtain ⟨hM, hL, hB⟩ := Command.of_letter command
  have hcontinue : continueFrames conn.protocol command =
      if (agreed h).2 &&& noReplyFlag command = 0 then [continueFrame] else [] := by rw [continueFrames, hinv.protocol]
  simp only [Reply, hpacket]
  generalize Command.of command = kind at hturn hM hL hB ⊢
  cases hturn with
  | offer hn =>
    cases hoffer : readOffer payload with
    | none => rw [negotiate_of_none hoffer] at hn; cases hn
    | some offer =>
      obtain ⟨version, offered, flags⟩ := offer
      rw [negotiate_of_offer hoffer] at hn
      cases hn
      refine ⟨⟨version, offered, flags, rfl, rfl⟩, fun f hf => ?_⟩
      obtain rfl := List.mem_singleton.1 hf
      exact ⟨by simp [offerFrame], by simp [offerFrame]⟩
  | begin => rw [← hM rfl]; exact ⟨hcontinue, continueFrames_proper _ _⟩
  | header => rw [← hL rfl]; exact ⟨hcontinue, continueFrames_proper _ _⟩
  | body => rw [← hB rfl]; exact ⟨hcontinue, continueFrames_proper _ _⟩
  | plain => exact ⟨hcontinue, continueFrames_proper _ _⟩
  | abort => exact ⟨rfl, by simp⟩
  | defineMacros => exact ⟨rfl, by simp⟩
  | finish hframes =>
    have haccept : acceptFrame.Proper := ⟨by decide, by decide⟩
    rcases finishFrames_cases hframes with rfl | ⟨herr, -, config, signed, hconfig, hsign, rfl⟩
    · exact ⟨Or.inl rfl, by simpa using haccept⟩
    · have hfailed : failed h = false := by simp [failed, hafter, herr]
      refine ⟨Or.inr ⟨hfailed, config, conn.state.headers, conn.state.body.finish e.moment.env.ssl.sha256, signed, _,
        by rw [← hinv.config, hconfig], hsign, ?_, rfl⟩, ?_⟩
      · rw [hinv.actions]
        exact signatureFrame_action (signed_nul hssl hsign) _
      · simpa using ⟨signatureFrame_proper (length_signed_le hssl hsign) _, haccept⟩

/-- The frames written for `e` after the packets `h`. -/
def Answered (h : List (Event Key)) (e : Event Key) (frames : List Frame) : Prop :=
  written (h ++ [e]) = written h ++ encodeAll frames ∧ ∀ f ∈ frames, f.Proper

theorem Answered.unique {h : List (Event Key)} {e : Event Key} {frames frames' : List Frame}
    (ha : Answered h e frames) (ha' : Answered h e frames') : frames = frames' := by
  have heq := ha.1
  rw [ha'.1] at heq
  exact encodeAll_inj ha.2 ha'.2 (List.append_cancel_left heq).symm

theorem answered_of_turn {h : List (Event Key)} {e : Event Key} {conn conn' : Conn Key} {command : UInt8}
    {payload : Bytes} {frames : List Frame} (hssl : Documented (h ++ [e])) (hafter : after h = some conn)
    (hpacket : e.packet = command :: payload)
    (hturn : Turn e.moment conn command payload (Command.of command) frames conn') : Answered h e frames :=
  ⟨(run_turn hssl.last hafter hpacket hturn).1,
    (reply_of_turn hssl.last hafter (run_inv hssl.left hafter) hpacket hturn).2⟩

theorem written_over {h : List (Event Key)} (hover : after h = none) (es : List (Event Key)) :
    written (h ++ es) = written h := by
  induction es generalizing h with
  | nil => rw [List.append_nil]
  | cons e es ih =>
    obtain ⟨hwritten, hafter⟩ := run_over hover e
    have := ih hafter
    rwa [List.append_assoc, hwritten] at this

/-- The run from a history on: by induction on the packets to come. -/
theorem replies_from : ∀ (es h : List (Event Key)) {conn : Conn Key}, Documented (h ++ es) → after h = some conn →
    ∃ replies, Replies h es replies ∧ written (h ++ es) = written h ++ encodeAll replies.flatten ∧
      ∀ f ∈ replies.flatten, f.Proper
  | [], h, _, _, _ => ⟨[], rfl, by simp, by simp⟩
  | e :: es, h, conn, hssl, hafter => by
    have hassoc : h ++ e :: es = h ++ [e] ++ es := by simp
    rw [hassoc] at hssl ⊢
    have hinv := run_inv hssl.left.left hafter
    cases hends : e.ends (captured h).isSome with
    | true =>
      obtain ⟨hwritten, hover⟩ := run_ends hssl.left.last hafter (by rw [hinv.config]; exact hends)
      exact ⟨[], by rw [Replies, if_pos hends], by rw [written_over hover, hwritten]; simp, by simp⟩
    | false =>
      obtain ⟨command, payload, frames, conn', hpacket, hturn⟩ :=
        react_goes_on hssl.left.last (by rw [hinv.config]; exact hends)
      obtain ⟨hreply, hproper⟩ := reply_of_turn hssl.left.last hafter hinv hpacket hturn
      obtain ⟨hwritten, hafter'⟩ := run_turn hssl.left.last hafter hpacket hturn
      obtain ⟨replies, hreplies, hout, hall⟩ := replies_from es (h ++ [e]) hssl hafter'
      refine ⟨frames :: replies, ?_, ?_, ?_⟩
      · rw [Replies, hends]
        exact ⟨frames, replies, rfl, hreply, hreplies⟩
      · rw [hout, hwritten, List.flatten_cons, encodeAll_append, List.append_assoc]
      · intro f hf
        rw [List.flatten_cons, List.mem_append] at hf
        exact hf.elim (hproper f) (hall f)

/-- **Reply discipline.** Whatever packets arrive, the bytes written are the replies to them, in
order, up to the packet the connection ends with; every frame is an `O`, `c`, `i`, `h` or `a`
frame whose length is what its first four bytes say. -/
theorem replies_disciplined (es : List (Event Key)) (hssl : Documented es) :
    ∃ replies, Replies [] es replies ∧ written es = encodeAll replies.flatten ∧ ∀ f ∈ replies.flatten, f.Proper := by
  obtain ⟨replies, hreplies, hout, hall⟩ := replies_from es [] hssl rfl
  exact ⟨replies, hreplies, hout, hall⟩

end

/-- A packet that meets the example configuration. -/
def exampleEvent (command : Char) (payload : Bytes) : Event Unit :=
  ⟨⟨some exampleConfig, exampleEnv⟩, byte command :: payload⟩

/-- A whole offer, with everything offered. -/
def exampleOffer : Event Unit := exampleEvent 'O' (toBeBytes 6 ++ toBeBytes 0x1ff ++ toBeBytes 0x1fffff)

def exampleFrom : Header := ⟨ascii "From", ascii "Alice <alice@example.com>", by decide, by decide⟩

/-- A session: an offer, a connection, a message of one field and no body, and the end. -/
def exampleSession : List (Event Unit) :=
  [exampleOffer, exampleEvent 'C' (ascii "localhost"), exampleEvent 'M' [], exampleEvent 'L' exampleFrom.wire,
    exampleEvent 'E' [], exampleEvent 'Q' []]

theorem exampleSession_documented : Documented exampleSession := by
  intro e he
  simp only [exampleSession, exampleOffer, List.mem_cons, List.not_mem_nil, or_false] at he
  rcases he with rfl | rfl | rfl | rfl | rfl | rfl <;> exact exampleSsl_documented

theorem replies_disciplined_session : ∃ replies, Replies [] exampleSession replies ∧
    written exampleSession = encodeAll replies.flatten ∧ ∀ f ∈ replies.flatten, f.Proper :=
  replies_disciplined exampleSession exampleSession_documented

example : (written exampleSession).take 17 = (offerFrame 6 0x11 0xff080).encode := by decide +kernel

end DkimLite
