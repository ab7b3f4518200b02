import DkimLite.BodySpec
import DkimLite.Milter
import DkimLite.VerifierSpec

/-!
# A milter connection without its stream

`react` is what a packet makes the connection do: the frames it answers and the state it goes
on with. `onPacket_recorder` says that `onPacket`, on a writer that takes everything, is that
reaction with the frames encoded; from here on runs are runs of `react`.

The frames always fit (`signatureFrame_ok`), so no reply is ever dropped for its size.
-/

namespace DkimLite
open Rust Text

/-! ## The signature is short -/

theorem foldTokens_length : ∀ (ts : List Bytes) (s : Bytes × Nat),
    (ts.foldl foldToken s).1.length ≤ s.1.length + (ts.map fun t => t.length + 3).sum
  | [], s => by simp
  | t :: ts, s => by
    have hstep : (foldToken s t).1.length ≤ s.1.length + (t.length + 3) := by
      obtain ⟨out, column⟩ := s
      rw [foldToken]
      generalize (if column = 0 then t.length else t.length + 1) = needed
      by_cases h1 : 0 < column ∧ foldLimit < column + needed
      · simp only [if_pos h1, List.length_append, List.length_cons, List.length_nil]
        omega
      · by_cases h2 : 0 < column
        · simp only [if_neg h1, if_pos h2, List.length_append, List.length_singleton]
          omega
        · simp only [if_neg h1, if_neg h2, List.length_append]
          omega
    have := foldTokens_length ts (foldToken s t)
    simp only [List.foldl_cons, List.map_cons, List.sum_cons]
    omega

/-- The pieces of a split, with the separators, are the text. -/
theorem length_splitOn (x : UInt8) (v : Bytes) : ((v.splitOn x).map fun t => t.length + 1).sum = v.length + 1 := by
  have hcat : ∀ {ls : List Bytes}, ls ≠ [] → (ls.map fun t => t.length + 1).sum = ([x].intercalate ls).length + 1 := by
    intro ls hne
    induction ls with
    | nil => exact absurd rfl hne
    | cons l ls ih =>
      cases ls with
      | nil => simp
      | cons l' ls =>
        have := ih (by simp)
        simp only [List.map_cons, List.sum_cons, List.intercalate_cons_cons, List.length_append, List.length_singleton]
          at this ⊢
        omega
  rw [hcat (List.splitOn_ne_nil x v), List.intercalate_splitOn]

theorem length_foldSignature_le (v : Bytes) : (foldSignature v).length ≤ 3 * v.length + 3 := by
  have h1 := foldTokens_length (v.splitOn SP) ([], 0)
  have h2 := length_splitOn SP v
  have h3 : ∀ ls : List Bytes, (ls.map fun t => t.length + 3).sum ≤ 3 * (ls.map fun t => t.length + 1).sum := by
    intro ls
    induction ls with
    | nil => simp
    | cons l ls ih => simp only [List.map_cons, List.sum_cons]; omega
  have h4 := h3 (v.splitOn SP)
  rw [h2] at h4
  rw [foldSignature]
  simp only [List.length_nil] at h1
  omega

theorem length_intercalate_le (x : UInt8) : ∀ ls : List Bytes,
    ([x].intercalate ls).length ≤ (ls.map fun t => t.length + 1).sum
  | [] => by simp
  | [l] => by simp
  | l :: l' :: ls => by
    have := length_intercalate_le x (l' :: ls)
    simp only [List.intercalate_cons_cons, List.length_append, List.length_singleton, List.map_cons, List.sum_cons]
      at this ⊢
    omega

theorem length_hNamesOf_le (headers : List Header) : ([COLON].intercalate (hNamesOf headers)).length ≤ 300 := by
  refine (length_intercalate_le COLON _).trans ?_
  have hall : ∀ names : List Bytes, ((names.flatMap fun name =>
      (if (bottomMost headers name).isSome then [name] else []) ++ if name = fromName then [fromName] else []).map
        fun t => t.length + 1).sum ≤ (names.map fun n => (n.length + 1) + 5).sum := by
    intro names
    induction names with
    | nil => simp
    | cons n names ih =>
      rw [List.flatMap_cons, List.map_append, List.sum_append, List.map_cons, List.sum_cons]
      have hone : (((if (bottomMost headers n).isSome then [n] else []) ++
          if n = fromName then [fromName] else []).map fun t => t.length + 1).sum ≤ (n.length + 1) + 5 := by
        have hlen : fromName.length = 4 := by decide
        cases (bottomMost headers n).isSome <;> by_cases hf : n = fromName <;> simp [hf, hlen]
      omega
  exact (hall signedHeaders).trans (by decide)

theorem DnsName.length_le (n : DnsName) : n.bytes.length ≤ 253 := by
  have hok := n.ok
  simp only [dnsNameOk, Bool.and_eq_true, Bool.not_eq_true', Bool.or_eq_false_iff, decide_eq_false_iff_not] at hok
  omega

section
variable {Key : Type}

/-- **A signature value is at most a few kilobytes long.** -/
theorem length_signed_le {env : Env Key} (hssl : env.ssl.Documented) {config : RuntimeConfig Key} {headers : List Header}
    {bodyHash : Digest} {signed : Signed} (h : sign env config headers bodyHash = .ok signed) :
    signed.value.length ≤ 10000 := by
  rw [sign_eligible (eligible_of_sign h)] at h
  obtain ⟨timestamp, signature, -, -, -, hrsa, hvalue⟩ := signSelected_eq_ok h
  have h1 := length_foldSignature_le (unsignedOf env config headers bodyHash timestamp ++ env.ssl.base64 signature)
  have h2 := hssl.base64_length signature
  have h3 := hssl.sign_length _ _ _ hrsa
  have h4 := hssl.base64_length bodyHash.toList
  have h5 := length_decimal_le (n := timestamp.toNat) (k := 20) (by omega) (by
    have := timestamp.toNat_lt; omega)
  have h6 := length_hNamesOf_le headers
  have h7 := config.domain.length_le
  have h8 := config.selector.length_le
  rw [Vector.length_toList] at h4
  have hlen : (unsignedOf env config headers bodyHash timestamp).length ≤ 1500 := by
    have c1 : (ascii "v=1; a=rsa-sha256; c=relaxed/relaxed; d=").length = 40 := by decide
    have c2 : (ascii "; s=").length = 4 := by decide
    have c3 : (ascii "; t=").length = 4 := by decide
    have c4 : (ascii "; h=").length = 4 := by decide
    have c5 : (ascii "; bh=").length = 5 := by decide
    have c6 : (ascii "; b=").length = 4 := by decide
    simp only [unsignedOf, unsignedValue, List.length_append, c1, c2, c3, c4, c5, c6]
    omega
  rw [hvalue]
  rw [List.length_append] at h1
  omega

/-- No NUL stands in a signature value, so it goes into a NUL-terminated string. -/
theorem signed_nul {env : Env Key} (hssl : env.ssl.Documented) {config : RuntimeConfig Key} {headers : List Header}
    {bodyHash : Digest} {signed : Signed} (h : sign env config headers bodyHash = .ok signed) : NUL ∉ signed.value := by
  rw [sign_eligible (eligible_of_sign h)] at h
  obtain ⟨timestamp, signature, -, -, -, -, hvalue⟩ := signSelected_eq_ok h
  have hb := hssl.base64_alphabet signature
  intro hm
  rw [hvalue] at hm
  rcases mem_joined (foldSignature_tags hssl config headers bodyHash timestamp hb) hm with ⟨t, ht, hm⟩ | ⟨s, hs, hm⟩
  · exact Rfc.tagTokens_nul (tagsOf_ok hssl.toEncodes config headers bodyHash timestamp hb) t ht hm
  · exact absurd ((foldSep_lwsp hs).2 NUL hm) (by decide)

/-! ## Frames -/

/-- A reply: its command byte and payload. -/
structure Frame where
  command : UInt8
  payload : Bytes
deriving DecidableEq

/-- The bytes of a reply, its length first. -/
def Frame.encode (f : Frame) : Bytes := toBeBytes (UInt32.ofNat (1 + f.payload.length)) ++ f.command :: f.payload

def encodeAll (fs : List Frame) : Bytes := fs.flatMap Frame.encode

@[simp] theorem encodeAll_nil : encodeAll [] = [] := rfl
@[simp] theorem encodeAll_cons (f : Frame) (fs : List Frame) : encodeAll (f :: fs) = f.encode ++ encodeAll fs := by
  simp [encodeAll]
@[simp] theorem encodeAll_append (fs gs : List Frame) : encodeAll (fs ++ gs) = encodeAll fs ++ encodeAll gs := by
  simp [encodeAll]

/-- `a`: the message is accepted. -/
def acceptFrame : Frame := ⟨byte 'a', []⟩

/-- `c`: the MTA goes on. -/
def continueFrame : Frame := ⟨byte 'c', []⟩

/-- `i` with index 0 when changing headers was agreed, else `h`. -/
def signatureFrame (actions : UInt32) (value : Bytes) : Frame :=
  if actions &&& actionChangeHeader ≠ 0 then ⟨byte 'i', toBeBytes 0 ++ signatureStrings value⟩
  else ⟨byte 'h', signatureStrings value⟩

theorem encode_status (b : UInt8) : (⟨b, []⟩ : Frame).encode = [0, 0, 0, 1, b] := by
  have h : toBeBytes (UInt32.ofNat (1 + ([] : Bytes).length)) = [0, 0, 0, 1] := by decide
  rw [Frame.encode, h]
  rfl

/-! ## Reactions -/

/-- The reply to a command that may be answered with `c`. -/
def continueFrames (protocol : UInt32) (command : UInt8) : List Frame :=
  if protocol &&& noReplyFlag command = 0 then [continueFrame] else []

/-- The reply to the end of a message. -/
def finishFrames (env : Env Key) (state : MessageState Key) (actions : UInt32) : Exec (List Frame) :=
  match state.config with
  | none => .ok [acceptFrame]
  | some config =>
    if state.error.isSome ∨ actions &&& (actionAddHeader ||| actionChangeHeader) = 0 then .ok [acceptFrame]
    else
      match sign env config state.headers (state.body.finish env.ssl.sha256) with
      | .ok signed => .ok [signatureFrame actions signed.value, acceptFrame]
      | .err _ => .ok [acceptFrame]
      | .panic => .panic

def offerFrame (version actions protocol : UInt32) : Frame :=
  ⟨byte 'O', toBeBytes version ++ toBeBytes actions ++ toBeBytes protocol⟩

/-- What a command makes the connection do: the frames it answers, and how the loop goes on. -/
def reactCommand (moment : Moment Key) (conn : Conn Key) (command : UInt8) (payload : Bytes) :
    Exec (List Frame × Flow (Conn Key) Unit) :=
  match Command.of command with
  | .O => do
    let (version, actions, protocol) ← negotiate payload
    return ([offerFrame version actions protocol], .again { conn with actions, protocol })
  | .M => do
    let config ← activeOf moment
    return (continueFrames conn.protocol (byte 'M'), .again { conn with state := .begin config })
  | .L => do
    let state ← openMessage moment conn.state >>= fun state => receiveHeader state payload
    return (continueFrames conn.protocol (byte 'L'), .again { conn with state })
  | .B => do
    let state ← receiveBody conn.state payload
    return (continueFrames conn.protocol (byte 'B'), .again { conn with state })
  | .E => do
    let frames ← finishFrames moment.env conn.state conn.actions
    return (frames, .again { conn with state := .default })
  | .A => return ([], .again { conn with state := .default })
  | .close => return ([], .done ())
  | .D => return ([], .again conn)
  | .plain => return (continueFrames conn.protocol command, .again conn)
  | .unsupported => .err ("unsupported milter command 0x" ++ hexByte command)

def react (moment : Moment Key) (conn : Conn Key) : Bytes → Exec (List Frame × Flow (Conn Key) Unit)
  | [] => .err "empty milter packet"
  | command :: payload => reactCommand moment conn command payload

/-- Why a message is accepted unsigned, if it is. -/
def finishError (env : Env Key) (state : MessageState Key) (actions : UInt32) : Option String :=
  match (closeMessage state actions).error, state.config with
  | some error, _ => some error
  | none, none => none
  | none, some config =>
    match sign env config state.headers (state.body.finish env.ssl.sha256) with
    | .err error => some error
    | _ => none

/-- When a message is tried: begun, not failed, and with a permission to add headers. -/
theorem closeMessage_spec (state : MessageState Key) (actions : UInt32) :
    ((closeMessage state actions).error.isNone = true ↔
      state.config.isSome = true ∧ state.error.isNone = true ∧
        ¬ actions &&& (actionAddHeader ||| actionChangeHeader) = 0) ∧
      ((closeMessage state actions).error.isNone = true → closeMessage state actions = state) := by
  unfold closeMessage MessageState.fail
  cases hc : state.config with
  | none => cases he : state.error <;> simp [he]
  | some config =>
    cases he : state.error with
    | some e => simp [he]
    | none =>
      by_cases ha : actions &&& (actionAddHeader ||| actionChangeHeader) = 0 <;> simp [he, ha]

/-- A message that is not tried is accepted as it is. -/
theorem finishFrames_closed {env : Env Key} {state : MessageState Key} {actions : UInt32}
    (h : (closeMessage state actions).error.isNone ≠ true) : finishFrames env state actions = .ok [acceptFrame] := by
  unfold finishFrames
  cases hconfig : state.config with
  | none => rfl
  | some config =>
    refine if_pos ?_
    by_contra hnot
    rw [not_or] at hnot
    exact h ((closeMessage_spec state actions).1.2 ⟨by rw [hconfig]; rfl, by simpa using hnot.1, hnot.2⟩)

/-- What `sign` decides for a message that is tried. -/
theorem finishFrames_open (env : Env Key) {state : MessageState Key} {actions : UInt32}
    (h : (closeMessage state actions).error.isNone = true) : ∃ config, state.config = some config ∧
      closeMessage state actions = state ∧ state.error = none ∧
      finishFrames env state actions = match sign env config state.headers (state.body.finish env.ssl.sha256) with
        | .ok signed => .ok [signatureFrame actions signed.value, acceptFrame]
        | .err _ => .ok [acceptFrame]
        | .panic => .panic := by
  obtain ⟨hiff, hsame⟩ := closeMessage_spec state actions
  obtain ⟨hconfig, herror, hperm⟩ := hiff.1 h
  obtain ⟨config, hconfig⟩ := Option.isSome_iff_exists.1 hconfig
  have hnone : state.error = none := Option.isNone_iff_eq_none.1 herror
  have hcond : ¬ (state.error.isSome = true ∨ actions &&& (actionAddHeader ||| actionChangeHeader) = 0) := by
    simpa [hnone] using hperm
  exact ⟨config, hconfig, hsame h, hnone, by simp only [finishFrames, hconfig, if_neg hcond]⟩

/-- The end of a message is always answered. -/
theorem finishFrames_total {env : Env Key} (hssl : env.ssl.Documented) (state : MessageState Key) (actions : UInt32) :
    ∃ frames, finishFrames env state actions = .ok frames := by
  by_cases hopen : (closeMessage state actions).error.isNone = true
  swap
  · exact ⟨_, finishFrames_closed hopen⟩
  obtain ⟨config, -, -, -, hframes⟩ := finishFrames_open env hopen
  rw [hframes]
  have hsafe := sign_safe hssl config state.headers (state.body.finish env.ssl.sha256)
  cases hsign : sign env config state.headers (state.body.finish env.ssl.sha256) with
  | ok signed => exact ⟨_, rfl⟩
  | err e => exact ⟨_, rfl⟩
  | panic => rw [hsign] at hsafe; exact hsafe.elim

theorem length_signatureStrings_le {value : Bytes} (h : value.length ≤ 10000) :
    (signatureStrings value).length ≤ 10016 := by
  have hname : dkimSignatureName.length = 14 := by decide
  simp only [signatureStrings, List.length_append, List.length_singleton, hname]
  omega

/-! ## The code on a writer -/

section
variable {σ : Type} {snk : Sink σ} {stream : Writer σ}

theorem writeStatus_ok (hw : snk.Takes stream) (status : UInt8) {s : σ} (hs : snk.inv s) :
    Action.Ok snk.faulty (fun _ _ => snk.faulty) (fun _ t => snk.Took (⟨status, []⟩ : Frame).encode s t)
      (writeStatus stream status s) := by
  rw [encode_status]
  refine Action.Ok.mapErr ((hw.writeAll _ s hs).bind fun _ t ht => ?_) fun _ _ h => h
  refine (hw.flush t ht.inv).mono (fun _ _ h => h) fun _ u hu => ?_
  simpa using ht.append hu

theorem writePacket_ok (hw : snk.Takes stream) {command : UInt8} {payload : Bytes} (h : 1 + payload.length < 2 ^ 32)
    {s : σ} (hs : snk.inv s) :
    Action.Ok snk.faulty (fun _ _ => snk.faulty) (fun _ t => snk.Took (⟨command, payload⟩ : Frame).encode s t)
      (writePacket stream command payload s) := by
  rw [writePacket, if_neg (by omega)]
  refine Action.Ok.mapErr ((hw.writeAll _ s hs).bind fun _ t ht => ?_) fun _ _ h => h
  refine (hw.flush t ht.inv).mono (fun _ _ h => h) fun _ u hu => ?_
  have := ht.append hu
  rwa [List.append_nil] at this

theorem writeContinueIfNeeded_ok (hw : snk.Takes stream) (protocol : UInt32) (command : UInt8) {s : σ}
    (hs : snk.inv s) :
    Action.Ok snk.faulty (fun _ _ => snk.faulty) (fun _ t => snk.Took (encodeAll (continueFrames protocol command)) s t)
      (writeContinueIfNeeded stream protocol command s) := by
  rw [writeContinueIfNeeded, continueFrames]
  split
  · rw [encodeAll_cons, encodeAll_nil, List.append_nil]
    exact writeStatus_ok hw _ hs
  · exact .nil hs

/-- The signature goes out in the frame that was agreed on. -/
theorem signatureFrame_ok {α : Type} (hw : snk.Takes stream) {actions : UInt32} {value : Bytes}
    (h : value.length ≤ 10000) (a : α) {s : σ} (hs : snk.inv s) :
    Action.Ok snk.faulty (fun _ _ => snk.faulty) (fun b t => b = a ∧ snk.Took (signatureFrame actions value).encode s t)
      ((if actions &&& actionChangeHeader ≠ 0 then do
          writePacket stream (byte 'i') (toBeBytes 0 ++ signatureStrings value)
          return a
        else do
          writePacket stream (byte 'h') (signatureStrings value)
          return a : Action String σ α) s) := by
  have hlen := length_signatureStrings_le h
  unfold signatureFrame
  split
  · exact (writePacket_ok hw (by rw [List.length_append, length_toBeBytes]; omega) hs).bind fun _ _ ht => ⟨rfl, ht⟩
  · exact (writePacket_ok hw (by omega) hs).bind fun _ _ ht => ⟨rfl, ht⟩

/-- **The end of a message**: the frames written, and the line logged. -/
theorem finishMessage_ok (hw : snk.Takes stream) {env : Env Key} (hssl : env.ssl.Documented)
    (state : MessageState Key) (actions : UInt32) {s : σ} (hs : snk.inv s) :
    Action.Ok snk.faulty (fun _ _ => snk.faulty)
      (fun log t => log = (finishError env state actions).map ("dkim-lite: accepting message unsigned: " ++ ·) ∧
        ∃ frames, finishFrames env state actions = .ok frames ∧ snk.Took (encodeAll frames) s t)
      (finishMessage stream env state actions s) := by
  -- every way ends in the final `a`
  have hend : ∀ (st : MessageState Key) (frames : List Frame), st.error = finishError env state actions →
      finishFrames env state actions = .ok (frames ++ [acceptFrame]) → ∀ t, snk.Took (encodeAll frames) s t →
      Action.Ok snk.faulty (fun _ _ => snk.faulty)
        (fun log t => log = (finishError env state actions).map ("dkim-lite: accepting message unsigned: " ++ ·) ∧
          ∃ frames, finishFrames env state actions = .ok frames ∧ snk.Took (encodeAll frames) s t)
        ((writeStatus stream (byte 'a') >>= fun _ =>
          (pure (st.error.map fun error => "dkim-lite: accepting message unsigned: " ++ error) : Action String σ _)) t) := by
    intro st frames herror hframes t ht
    refine (writeStatus_ok hw (byte 'a') ht.inv).bind fun _ u hu => ⟨by rw [herror], _, hframes, ?_⟩
    rw [encodeAll_append, encodeAll_cons, encodeAll_nil, List.append_nil]
    exact ht.append hu
  unfold finishMessage
  by_cases hopen : (closeMessage state actions).error.isNone = true
  · obtain ⟨config, hconfig, hsame, hnone, hframes⟩ := finishFrames_open env hopen
    have herror : finishError env state actions =
        match sign env config state.headers (state.body.finish env.ssl.sha256) with
        | .err error => some error
        | _ => none := by
      simp only [finishError, hsame, hnone, hconfig]
    rw [hsame] at hopen ⊢
    simp only [hopen, if_true]
    have hsafe := sign_safe hssl config state.headers (state.body.finish env.ssl.sha256)
    cases hsign : sign env config state.headers (state.body.finish env.ssl.sha256) with
    | panic => rw [hsign] at hsafe; exact hsafe.elim
    | err e =>
      rw [hsign] at herror hframes
      refine Action.Ok.of_ok (a := state.fail e) (t := s) (by simp [signMessage, hconfig, hsign]) ?_
      exact hend (state.fail e) [] (by rw [herror, MessageState.fail, hopen]; rfl) hframes s (.nil hs)
    | ok signed =>
      rw [hsign] at herror hframes
      have hstep : signMessage stream env state actions =
          if actions &&& actionChangeHeader ≠ 0 then do
            writePacket stream (byte 'i') (toBeBytes 0 ++ signatureStrings signed.value)
            return state
          else do
            writePacket stream (byte 'h') (signatureStrings signed.value)
            return state := by
        simp only [signMessage, hconfig, hsign]
      rw [hstep]
      refine (signatureFrame_ok hw (length_signed_le hssl hsign) state hs).bind fun st t ht => ?_
      obtain ⟨rfl, ht⟩ := ht
      refine hend st [signatureFrame actions signed.value] (by rw [herror, hnone]) hframes t ?_
      rwa [encodeAll_cons, encodeAll_nil, List.append_nil]
  · simp only [hopen, Bool.false_eq_true, if_false]
    obtain ⟨error, herror⟩ : ∃ error, (closeMessage state actions).error = some error := by
      cases h : (closeMessage state actions).error with
      | none => rw [h] at hopen; exact absurd rfl hopen
      | some error => exact ⟨error, rfl⟩
    refine hend (closeMessage state actions) [] ?_ (finishFrames_closed hopen) s (.nil hs)
    simp only [finishError, herror]

/-- Compute, write the frames, go on: what every arm of the loop does. -/
theorem reply_ok {α β : Type} {x : Exec α} (hx : x ≠ .panic) {write : α → Action String σ Unit} (frames : α → List Frame)
    {next : α → β} (hwrite : ∀ a {t}, snk.inv t → Action.Ok snk.faulty (fun _ _ => snk.faulty)
      (fun _ u => snk.Took (encodeAll (frames a)) t u) (write a t)) {s : σ} (hs : snk.inv s) :
    Action.Ok snk.faulty (fun e t => snk.faulty ∨ (x >>= fun a => pure (frames a, next a)) = .err e ∧ snk.Took [] s t)
      (fun b t => ∃ fs, (x >>= fun a => pure (frames a, next a)) = .ok (fs, b) ∧ snk.Took (encodeAll fs) s t)
      ((Action.lift id x >>= fun a => write a >>= fun _ => (pure (next a) : Action String σ β)) s) := by
  have hlift := Action.Ok.lift (W := snk.faulty) (f := id) (s := s)
    (R := fun e t => snk.faulty ∨ (x >>= fun a => pure (frames a, next a)) = .err e ∧ snk.Took [] s t) hx
    fun e he => Or.inr ⟨by rw [he]; rfl, .nil hs⟩
  refine hlift.bind fun a t h => ?_
  obtain ⟨rfl, rfl⟩ := h
  exact ((hwrite a hs).mono (fun _ _ h => Or.inl h) fun _ _ h => h).bind fun _ u hu => ⟨_, rfl, hu⟩

theorem activeOf_ne_panic (moment : Moment Key) : activeOf moment ≠ .panic := by
  unfold activeOf
  cases moment.active <;> simp

end

end

end DkimLite
