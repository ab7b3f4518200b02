import DkimLite.MilterSpec

/-!
# Runs of a connection

A run is a list of packets, each with the moment it was processed at. `written` is what the
loop writes for it and `after` the state it then waits in (`none` once the connection is over);
`run_turn`, `run_ends` and `run_over` take a run one packet further.

`Turn` says once what a packet can do to a connection that goes on: one constructor for each
command, with the frames it answers. Every invariant of runs is proved by its cases. The
functions `captured` and `agreed` say from the packets alone which configuration the open
message works with and what was negotiated; `run_inv` says that the state of the loop agrees.
-/

namespace DkimLite
open Rust Text

section
variable {Key : Type}

/-! ## Packets -/

/-- The command of a packet; an empty packet has none. -/
def kindOf (packet : Bytes) : Option Command := packet.head?.map Command.of

def Event.kind (e : Event Key) : Option Command := kindOf e.packet

def Event.payload (e : Event Key) : Bytes := e.packet.tail

/-- The payloads of the packets with a command. -/
def payloadsOf (kind : Command) (es : List (Event Key)) : List Bytes :=
  (es.filter (·.kind = some kind)).map Event.payload

@[simp] theorem payloadsOf_nil (kind : Command) : payloadsOf kind ([] : List (Event Key)) = [] := rfl

theorem payloadsOf_append (kind : Command) (es es' : List (Event Key)) :
    payloadsOf kind (es ++ es') = payloadsOf kind es ++ payloadsOf kind es' := by
  simp [payloadsOf]

theorem payloadsOf_one (kind : Command) (e : Event Key) :
    payloadsOf kind [e] = if e.kind = some kind then [e.payload] else [] := by
  by_cases h : e.kind = some kind <;> simp [payloadsOf, h]

/-! ## A field received -/

/-- A field as the MTA sends it: two NUL-terminated strings. -/
def Header.wire (h : Header) : Bytes := h.name ++ NUL :: (h.value ++ [NUL])

theorem Header.name_nul (h : Header) : NUL ∉ h.name := by
  intro hm
  exact absurd (List.all_eq_true.1 h.name_ok.2.2 NUL hm) (by decide)

theorem Header.wire_inj {a b : Header} (h : a.wire = b.wire) : a = b := by
  obtain ⟨hname, hvalue⟩ := append_cons_inj a.name_nul b.name_nul h
  exact ext_fields hname (List.append_cancel_right hvalue)

/-- The limits leave room for another field. -/
def MessageState.Fits (state : MessageState Key) (h : Header) : Prop :=
  state.headers.length < maxHeaders ∧
    saturatingAdd state.headerBytes (h.name.length + h.value.length) ≤ maxHeaderBytes

/-- What an L payload does to an open message. -/
inductive Received (state : MessageState Key) (payload : Bytes) : MessageState Key → Prop
  | skipped : state.error.isSome = true → Received state payload state
  | added {h : Header} : state.error = none → payload = h.wire → state.Fits h →
      Received state payload
        { state with
          headers := state.headers ++ [h]
          headerBytes := saturatingAdd state.headerBytes (h.name.length + h.value.length) }
  | rejected {bytes : Nat} {reason : String} : state.error = none → (∀ h : Header, payload = h.wire → ¬ state.Fits h) →
      Received state payload { state with headerBytes := bytes, error := some reason }

theorem fail_of_none {state : MessageState Key} (h : state.error = none) (reason : String) :
    state.fail reason = { state with error := some reason } := by
  rw [MessageState.fail, h]
  rfl

/-- A text cut at its first NUL. -/
theorem cut_nul {payload : Bytes} {separator : Nat} (h : payload.findIdx? (· == NUL) = some separator) :
    ∃ name rest, payload = name ++ NUL :: rest ∧ name.length = separator ∧ NUL ∉ name := by
  obtain ⟨hlt, hat, hbefore⟩ := List.findIdx?_eq_some_iff_getElem.1 h
  have hnul : payload[separator] = NUL := by simpa using hat
  refine ⟨payload.take separator, payload.drop (separator + 1), ?_, by rw [List.length_take]; omega, ?_⟩
  · rw [← hnul, ← List.drop_eq_getElem_cons hlt, List.take_append_drop]
  · intro hm
    obtain ⟨i, hi, hget⟩ := List.mem_iff_getElem.1 hm
    rw [List.length_take] at hi
    rw [List.getElem_take] at hget
    exact hbefore i (by omega) (by simp [hget])

/-- **`receive_header` keeps a field or fails the message, and never panics.** -/
theorem receiveHeader_spec (state : MessageState Key) (payload : Bytes) :
    ∃ st, receiveHeader state payload = .ok st ∧ Received state payload st := by
  unfold receiveHeader
  by_cases herr : state.error.isSome = true
  · exact ⟨state, if_pos herr, .skipped herr⟩
  have hnone : state.error = none := by simpa using herr
  rw [if_neg herr]
  have hreject : ∀ reason, (∀ h : Header, payload = h.wire → ¬ state.Fits h) →
      Received state payload (state.fail reason) := by
    intro reason h
    rw [fail_of_none hnone]
    exact .rejected hnone h
  cases hsep : payload.findIdx? (· == NUL) with
  | none =>
    refine ⟨_, rfl, hreject _ fun h hp => ?_⟩
    have := List.findIdx?_eq_none_iff.1 hsep NUL (by simp [hp, Header.wire])
    simp at this
  | some separator =>
    obtain ⟨name, rest, rfl, rfl, hname⟩ := cut_nul hsep
    have hrest : sliceFrom (name ++ NUL :: rest) (name.length + 1) = .ok rest := by
      have := sliceFrom_append (name ++ [NUL]) rest
      simpa using this
    have hwire : ∀ h : Header, name ++ NUL :: rest = h.wire → h.name = name ∧ rest = h.value ++ [NUL] := by
      intro h hp
      obtain ⟨rfl, rfl⟩ := append_cons_inj hname h.name_nul hp
      exact ⟨rfl, rfl⟩
    simp only [sliceTo_append, hrest, Exec.ok_bind, Exec.pure_eq]
    rcases List.eq_nil_or_concat rest with rfl | ⟨value, last, rfl⟩
    · refine ⟨_, if_pos (by simp), hreject _ fun h hp => ?_⟩
      have := (hwire h hp).2
      simp at this
    rw [List.concat_eq_append] at hwire hreject ⊢
    simp only [List.getLast?_concat, List.dropLast_concat]
    by_cases hlast : last = NUL
    swap
    · refine ⟨_, if_pos (by simpa using hlast), hreject _ fun h hp => ?_⟩
      have := (hwire h hp).2
      exact absurd (List.append_inj' this rfl).2 (by simpa using hlast)
    subst hlast
    rw [if_neg (by simp)]
    have hvalue : ∀ h : Header, name ++ NUL :: (value ++ [NUL]) = h.wire → h.name = name ∧ h.value = value :=
      fun h hp => ⟨(hwire h hp).1, (List.append_cancel_right (hwire h hp).2).symm⟩
    by_cases hnul : value.contains NUL = true
    · refine ⟨_, if_pos hnul, hreject _ fun h hp => ?_⟩
      obtain ⟨-, rfl⟩ := hvalue h hp
      exact absurd (by simpa using hnul) h.no_nul
    rw [if_neg hnul]
    by_cases hlimit : maxHeaders ≤ state.headers.length ∨
        maxHeaderBytes < saturatingAdd state.headerBytes (name.length + value.length)
    · refine ⟨_, if_pos hlimit, ?_⟩
      rw [fail_of_none (by exact hnone)]
      refine .rejected hnone fun h hp hfits => ?_
      obtain ⟨rfl, rfl⟩ := hvalue h hp
      have h1 := hfits.1
      have h2 := hfits.2
      omega
    rw [if_neg hlimit]
    cases hnew : Header.new name value with
    | error reason =>
      refine ⟨_, rfl, ?_⟩
      rw [fail_of_none (by exact hnone)]
      refine .rejected hnone fun h hp => ?_
      have hok := Header.new_eq_ok.2 (hvalue h hp)
      rw [hnew] at hok
      cases hok
    | ok header =>
      obtain ⟨rfl, rfl⟩ := Header.new_eq_ok.1 hnew
      exact ⟨_, rfl, .added hnone rfl ⟨by omega, by omega⟩⟩

/-! ## What a packet can do -/

/-- A turn of the loop that goes on, by the command it is for. -/
inductive Turn (moment : Moment Key) (conn : Conn Key) (command : UInt8) (payload : Bytes) :
    Command → List Frame → Conn Key → Prop
  | offer {version actions protocol : UInt32} : negotiate payload = .ok (version, actions, protocol) →
      Turn moment conn command payload .O [offerFrame version actions protocol] { conn with actions, protocol }
  | begin {config : RuntimeConfig Key} : moment.active = some config →
      Turn moment conn command payload .M (continueFrames conn.protocol (byte 'M')) { conn with state := .begin config }
  | header {opened state : MessageState Key} : openMessage moment conn.state = .ok opened →
      receiveHeader opened payload = .ok state →
      Turn moment conn command payload .L (continueFrames conn.protocol (byte 'L')) { conn with state }
  | body {state : MessageState Key} : receiveBody conn.state payload = .ok state →
      Turn moment conn command payload .B (continueFrames conn.protocol (byte 'B')) { conn with state }
  | finish {frames : List Frame} : finishFrames moment.env conn.state conn.actions = .ok frames →
      Turn moment conn command payload .E frames { conn with state := .default }
  | abort : Turn moment conn command payload .A [] { conn with state := .default }
  | defineMacros : Turn moment conn command payload .D [] conn
  | plain : Turn moment conn command payload .plain (continueFrames conn.protocol command) conn

/-- A whole offer: its version, actions and protocol flags. -/
def readOffer : Bytes → Option (UInt32 × UInt32 × UInt32)
  | [a, b, c, d, a', b', c', d', a'', b'', c'', d''] =>
    some (a.toUInt32 <<< 24 ||| b.toUInt32 <<< 16 ||| c.toUInt32 <<< 8 ||| d.toUInt32,
      a'.toUInt32 <<< 24 ||| b'.toUInt32 <<< 16 ||| c'.toUInt32 <<< 8 ||| d'.toUInt32,
      a''.toUInt32 <<< 24 ||| b''.toUInt32 <<< 16 ||| c''.toUInt32 <<< 8 ||| d''.toUInt32)
  | _ => none

/-- The actions granted of those offered: adding and changing headers. -/
def grantedActions (offered : UInt32) : UInt32 := offered &&& (actionAddHeader ||| actionChangeHeader)

/-- The no-reply flags agreed on: the supported ones, from version 6 on. -/
def agreedProtocol (version offered : UInt32) : UInt32 := if version < 6 then 0 else offered &&& supportedNoReply

/-- `u32::min` reaches 6 from 6 on. -/
theorem six_le_min {version : UInt32} : 6 ≤ min version 6 ↔ ¬ version < 6 := by
  show 6 ≤ (if version ≤ 6 then version else 6) ↔ _
  simp only [UInt32.le_iff_toNat_le, UInt32.lt_iff_toNat_lt]
  split
  · simp only [UInt32.reduceToNat]; omega
  · simp_all only [UInt32.reduceToNat]; omega

theorem negotiate_of_offer {payload : Bytes} {version offered flags : UInt32}
    (h : readOffer payload = some (version, offered, flags)) :
    negotiate payload = .ok (min version 6, grantedActions offered, agreedProtocol version flags) := by
  unfold readOffer at h
  split at h
  case h_2 => cases h
  case h_1 =>
    simp only [Option.some.injEq, Prod.mk.injEq] at h
    obtain ⟨rfl, rfl, rfl⟩ := h
    simp only [negotiate, agreedProtocol, six_le_min, ite_not]
    rfl

theorem negotiate_of_none {payload : Bytes} (h : readOffer payload = none) :
    negotiate payload = .err "invalid option negotiation packet" := by
  refine if_pos fun hlen => ?_
  match payload, hlen with
  | [_, _, _, _, _, _, _, _, _, _, _, _], _ => cases h

theorem react_of_turn {moment : Moment Key} {conn conn' : Conn Key} {command : UInt8} {payload : Bytes}
    {frames : List Frame} (h : Turn moment conn command payload (Command.of command) frames conn') :
    react moment conn (command :: payload) = .ok (frames, .again conn') := by
  rw [react, reactCommand]
  generalize Command.of command = kind at h ⊢
  cases h with
  | offer hn => simp only [hn, Exec.ok_bind, Exec.pure_eq]
  | begin hactive => simp only [activeOf, hactive, Exec.ok_bind, Exec.pure_eq]
  | header hopened hstate => simp only [hopened, hstate, Exec.ok_bind, Exec.pure_eq]
  | body hstate => simp only [hstate, Exec.ok_bind, Exec.pure_eq]
  | finish hframes => simp only [hframes, Exec.ok_bind, Exec.pure_eq]
  | abort => rfl
  | defineMacros => rfl
  | plain => rfl

theorem receiveBody_eq (state : MessageState Key) (payload : Bytes) :
    receiveBody state payload = .ok (if state.config.isNone then state.fail "body received before message start"
      else if state.error.isNone then { state with body := payload.foldl BodyCanonicalizer.referenceStep state.body }
      else state) := by
  unfold receiveBody
  rw [BodyCanonicalizer.update_eq]
  split
  · rfl
  · split <;> rfl

theorem openMessage_eq {moment : Moment Key} {state opened : MessageState Key} :
    openMessage moment state = .ok opened ↔
      (state.config.isSome = true ∧ opened = state) ∨
        (state.config = none ∧ ∃ config, moment.active = some config ∧ opened = .begin config) := by
  unfold openMessage activeOf
  cases state.config with
  | some config => simp [eq_comm]
  | none => cases moment.active <;> simp [eq_comm]

/-! ## The code on a writer -/

theorem negotiate_ne_panic (payload : Bytes) : negotiate payload ≠ .panic := by
  cases h : readOffer payload with
  | none => rw [negotiate_of_none h]; simp
  | some offer => obtain ⟨version, offered, flags⟩ := offer; rw [negotiate_of_offer h]; simp

theorem receiveHeader_ne_panic (state : MessageState Key) (payload : Bytes) : receiveHeader state payload ≠ .panic := by
  obtain ⟨st, hst, -⟩ := receiveHeader_spec state payload
  rw [hst]
  simp

theorem openMessage_ne_panic (moment : Moment Key) (state : MessageState Key) (payload : Bytes) :
    (openMessage moment state >>= fun state => receiveHeader state payload) ≠ .panic := by
  unfold openMessage
  split
  · cases h : activeOf moment with
    | ok config =>
      rw [Exec.ok_bind, Exec.pure_eq, Exec.ok_bind]
      exact receiveHeader_ne_panic _ payload
    | err e => simp
    | panic => exact absurd h (activeOf_ne_panic moment)
  · exact receiveHeader_ne_panic _ payload

theorem receiveBody_ne_panic (state : MessageState Key) (payload : Bytes) : receiveBody state payload ≠ .panic := by
  rw [receiveBody_eq]
  simp

/-- **One packet, on any writer**: the frames of the reaction are written, and the loop goes on as
the reaction says. -/
theorem onPacket_ok {σ : Type} {snk : Sink σ} {stream : Writer σ} (hw : snk.Takes stream) {moment : Moment Key}
    (hssl : moment.env.ssl.Documented) (conn : Conn Key) (packet : Bytes) {s : σ} (hs : snk.inv s) :
    Action.Ok snk.faulty (fun e t => snk.faulty ∨ react moment conn packet = .err e ∧ snk.Took [] s t)
      (fun flow t => ∃ frames, react moment conn packet = .ok (frames, flow) ∧ snk.Took (encodeAll frames) s t)
      (onPacket stream moment conn packet s) := by
  cases packet with
  | nil => exact Or.inr ⟨rfl, .nil hs⟩
  | cons command payload =>
    rw [onPacket, onCommand, react, reactCommand]
    cases Command.of command with
    | O =>
      refine reply_ok (negotiate_ne_panic payload) _ (fun _ _ ht => ?_) hs
      rw [encodeAll_cons, encodeAll_nil, List.append_nil]
      exact writePacket_ok hw (by simp) ht
    | M => exact reply_ok (activeOf_ne_panic moment) _ (fun _ _ => writeContinueIfNeeded_ok hw _ _) hs
    | L => exact reply_ok (openMessage_ne_panic moment conn.state payload) _ (fun _ _ => writeContinueIfNeeded_ok hw _ _) hs
    | B => exact reply_ok (receiveBody_ne_panic conn.state payload) _ (fun _ _ => writeContinueIfNeeded_ok hw _ _) hs
    | E =>
      refine ((finishMessage_ok hw hssl conn.state conn.actions hs).mono (fun _ _ h => Or.inl h) fun _ _ h => h).bind ?_
      rintro log t ⟨-, frames, hframes, ht⟩
      exact ⟨frames, by simp only [hframes, Exec.ok_bind, Exec.pure_eq], ht⟩
    | A => exact ⟨[], rfl, .nil hs⟩
    | close => exact ⟨[], rfl, .nil hs⟩
    | D => exact ⟨[], rfl, .nil hs⟩
    | plain =>
      refine ((writeContinueIfNeeded_ok hw _ _ hs).mono (fun _ _ h => Or.inl h) fun _ _ h => h).bind fun _ t ht => ?_
      exact ⟨_, rfl, ht⟩
    | unsupported => exact Or.inr ⟨rfl, .nil hs⟩

/-- An answer given in one go. -/
def answer {α : Type} (out : Bytes) : Exec (List Frame × α) → Outcome String Bytes α
  | .ok (frames, a) => .ok a (out ++ encodeAll frames)
  | .err e => .err e out
  | .panic => .panic

theorem onPacket_recorder {moment : Moment Key} (hssl : moment.env.ssl.Documented) (conn : Conn Key) (packet out : Bytes) :
    onPacket recorder moment conn packet out = answer out (react moment conn packet) := by
  have h := onPacket_ok recorder_takes hssl conn packet (s := out) trivial
  cases ho : onPacket recorder moment conn packet out with
  | ok flow t =>
    rw [ho] at h
    obtain ⟨frames, hreact, htook⟩ := h
    obtain rfl : t = out ++ encodeAll frames := htook.takes
    rw [hreact, answer]
  | err e t =>
    rw [ho] at h
    rcases h with h | ⟨hreact, htook⟩
    · exact h.elim
    · obtain rfl : t = out ++ [] := htook.takes
      rw [hreact, answer, List.append_nil]
  | panic => rw [ho] at h; exact h.elim
  | pending t => rw [ho] at h; exact h.elim

/-! ## When a connection ends -/

/-- The packets after which nothing more is read: Q and K, and those that are an error. The
configuration is looked up by M, and by L when no message is open. -/
def Event.ends (isOpen : Bool) (e : Event Key) : Bool :=
  match e.kind with
  | none | some .close | some .unsupported => true
  | some .O => (readOffer e.payload).isNone
  | some .M => e.moment.active.isNone
  | some .L => !isOpen && e.moment.active.isNone
  | some .B | some .E | some .A | some .D | some .plain => false

/-- **Packets that end nothing are answered and the loop goes on.** -/
theorem react_goes_on {e : Event Key} (hssl : e.moment.env.ssl.Documented) {conn : Conn Key}
    (h : e.ends conn.state.config.isSome = false) :
    ∃ command payload frames conn', e.packet = command :: payload ∧
      Turn e.moment conn command payload (Command.of command) frames conn' := by
  obtain ⟨moment, packet⟩ := e
  cases packet with
  | nil => cases h
  | cons command payload =>
    have hkind : (⟨moment, command :: payload⟩ : Event Key).kind = some (Command.of command) := rfl
    have hpayload : (⟨moment, command :: payload⟩ : Event Key).payload = payload := rfl
    rw [Event.ends, hkind, hpayload] at h
    suffices hturn : ∃ frames conn', Turn moment conn command payload (Command.of command) frames conn' by
      obtain ⟨frames, conn', hturn⟩ := hturn
      exact ⟨command, payload, frames, conn', rfl, hturn⟩
    generalize Command.of command = kind at h ⊢
    cases kind with
    | O =>
      cases hoffer : readOffer payload with
      | none => simp [hoffer] at h
      | some offer => exact ⟨_, _, .offer (negotiate_of_offer hoffer)⟩
    | M =>
      cases hactive : moment.active with
      | none => simp [hactive] at h
      | some config => exact ⟨_, _, .begin hactive⟩
    | L =>
      have hopened : ∃ opened, openMessage moment conn.state = .ok opened := by
        cases hc : conn.state.config with
        | some config => exact ⟨_, openMessage_eq.2 (Or.inl ⟨by rw [hc]; rfl, rfl⟩)⟩
        | none =>
          cases hactive : moment.active with
          | none => simp [hc, hactive] at h
          | some config => exact ⟨_, openMessage_eq.2 (Or.inr ⟨hc, config, hactive, rfl⟩)⟩
      obtain ⟨opened, hopened⟩ := hopened
      obtain ⟨state, hstate, -⟩ := receiveHeader_spec opened payload
      exact ⟨_, _, .header hopened hstate⟩
    | B => exact ⟨_, _, .body (receiveBody_eq _ _)⟩
    | E =>
      obtain ⟨frames, hframes⟩ := finishFrames_total hssl conn.state conn.actions
      exact ⟨_, _, .finish hframes⟩
    | A => exact ⟨_, _, .abort⟩
    | D => exact ⟨_, _, .defineMacros⟩
    | plain => exact ⟨_, _, .plain⟩
    | close => cases h
    | unsupported => cases h

/-- **The others are not answered and nothing follows.** -/
theorem react_ends {e : Event Key} {conn : Conn Key} (h : e.ends conn.state.config.isSome = true) :
    react e.moment conn e.packet = .ok ([], .done ()) ∨ ∃ error, react e.moment conn e.packet = .err error := by
  obtain ⟨moment, packet⟩ := e
  cases packet with
  | nil => exact Or.inr ⟨_, rfl⟩
  | cons command payload =>
    have hkind : (⟨moment, command :: payload⟩ : Event Key).kind = some (Command.of command) := rfl
    have hpayload : (⟨moment, command :: payload⟩ : Event Key).payload = payload := rfl
    rw [Event.ends, hkind, hpayload] at h
    simp only [react]
    rw [reactCommand]
    generalize Command.of command = kind at h ⊢
    cases kind with
    | O =>
      have hoffer : readOffer payload = none := by simpa using h
      exact Or.inr ⟨_, by simp only [negotiate_of_none hoffer, Exec.err_bind]; rfl⟩
    | M =>
      have hactive : moment.active = none := by simpa using h
      exact Or.inr ⟨_, by simp only [activeOf, hactive, Exec.err_bind]; rfl⟩
    | L =>
      obtain ⟨hc, hactive⟩ : conn.state.config = none ∧ moment.active = none := by simpa using h
      exact Or.inr ⟨_, by simp [openMessage, hc, activeOf, hactive]; rfl⟩
    | close => exact Or.inl rfl
    | unsupported => exact Or.inr ⟨_, rfl⟩
    | B => cases h
    | E => cases h
    | A => cases h
    | D => cases h
    | plain => cases h

/-! ## Runs -/

theorem onPackets_append {σ : Type} (stream : Writer σ) (es es' : List (Event Key)) (conn : Conn Key) (s : σ) :
    onPackets stream conn (es ++ es') s = (onPackets stream conn es >>= fun flow =>
      match flow with
      | .again conn => onPackets stream conn es'
      | .done () => return .done ()) s := by
  induction es generalizing conn s with
  | nil => rfl
  | cons e es ih =>
    simp only [List.cons_append, onPackets, Action.bind_apply]
    cases onPacket stream e.moment conn e.packet s with
    | ok flow s' =>
      cases flow with
      | again conn' => simp only [ih, Action.bind_apply]
      | done _ => rfl
    | err error s' => rfl
    | panic => rfl
    | pending s' => rfl

/-- The loop on a fresh connection, with a writer that takes everything. -/
def runOf (es : List (Event Key)) : Outcome String Bytes (Flow (Conn Key) Unit) := onPackets recorder {} es []

/-- All that was written when a run stands where it does. -/
def outputOf {α : Type} : Outcome String Bytes α → Bytes
  | .ok _ out | .err _ out | .pending out => out
  | .panic => []

/-- All that is written for the packets `es`. -/
def written (es : List (Event Key)) : Bytes := outputOf (runOf es)

/-- The state the loop waits in for the next packet, unless the connection is over. -/
def after (es : List (Event Key)) : Option (Conn Key) :=
  match runOf es with
  | .ok (.again conn) _ => some conn
  | _ => none

/-- OpenSSL behaves as documented all along. -/
def Documented (es : List (Event Key)) : Prop := ∀ e ∈ es, e.moment.env.ssl.Documented

theorem Documented.left {es es' : List (Event Key)} (h : Documented (es ++ es')) : Documented es :=
  fun e he => h e (List.mem_append_left es' he)

theorem Documented.last {es : List (Event Key)} {e : Event Key} (h : Documented (es ++ [e])) :
    e.moment.env.ssl.Documented :=
  h e (by simp)

theorem runOf_of_after {es : List (Event Key)} {conn : Conn Key} (h : after es = some conn) :
    runOf es = .ok (.again conn) (written es) := by
  unfold after at h
  split at h
  case h_1 heq => cases h; rw [written, heq]; rfl
  case h_2 => cases h

/-- The next packet, on the code. -/
theorem runOf_next {es : List (Event Key)} {conn : Conn Key} (h : after es = some conn) (e : Event Key) :
    runOf (es ++ [e]) = onPacket recorder e.moment conn e.packet (written es) := by
  rw [runOf, onPackets_append, Action.bind_ok (runOf_of_after h)]
  simp only [onPackets, Action.bind_apply]
  match onPacket recorder e.moment conn e.packet (written es) with
  | .ok (.again _) _ => rfl
  | .ok (.done _) _ => rfl
  | .err _ _ => rfl
  | .panic => rfl
  | .pending _ => rfl

theorem runOf_snoc {es : List (Event Key)} {e : Event Key} {conn : Conn Key} (hssl : e.moment.env.ssl.Documented)
    (h : after es = some conn) : runOf (es ++ [e]) = answer (written es) (react e.moment conn e.packet) := by
  rw [runOf_next h, onPacket_recorder hssl]

theorem runOf_over {es : List (Event Key)} (h : after es = none) (e : Event Key) : runOf (es ++ [e]) = runOf es := by
  rw [runOf, onPackets_append, Action.bind_apply, runOf]
  rw [after, runOf] at h
  generalize onPackets recorder {} es [] = o at h ⊢
  match o, h with
  | .ok (.done ()) _, _ => rfl
  | .err _ _, _ => rfl
  | .panic, _ => rfl
  | .pending _, _ => rfl

/-- **A packet that is answered.** -/
theorem run_turn {es : List (Event Key)} {e : Event Key} {conn conn' : Conn Key} {command : UInt8} {payload : Bytes}
    {frames : List Frame} (hssl : e.moment.env.ssl.Documented) (h : after es = some conn)
    (hpacket : e.packet = command :: payload)
    (hturn : Turn e.moment conn command payload (Command.of command) frames conn') :
    written (es ++ [e]) = written es ++ encodeAll frames ∧ after (es ++ [e]) = some conn' := by
  have hrun := runOf_snoc hssl h
  rw [hpacket, react_of_turn hturn] at hrun
  rw [written, after, hrun]
  exact ⟨rfl, rfl⟩

/-- **A packet after which nothing more is read.** -/
theorem run_ends {es : List (Event Key)} {e : Event Key} {conn : Conn Key} (hssl : e.moment.env.ssl.Documented)
    (h : after es = some conn) (hends : e.ends conn.state.config.isSome = true) :
    written (es ++ [e]) = written es ∧ after (es ++ [e]) = none := by
  have hrun := runOf_snoc hssl h
  rcases react_ends hends with hr | ⟨error, hr⟩
  · rw [hr] at hrun
    rw [written, after, hrun]
    exact ⟨List.append_nil _, rfl⟩
  · rw [hr] at hrun
    rw [written, after, hrun]
    exact ⟨rfl, rfl⟩

theorem run_over {es : List (Event Key)} (h : after es = none) (e : Event Key) :
    written (es ++ [e]) = written es ∧ after (es ++ [e]) = none := by
  rw [written, after, runOf_over h]
  exact ⟨rfl, h⟩

/-- A run that goes on came from one that went on, by a turn. -/
theorem turn_of_after {es : List (Event Key)} {e : Event Key} {conn' : Conn Key} (hssl : e.moment.env.ssl.Documented)
    (h : after (es ++ [e]) = some conn') :
    ∃ conn command payload frames, after es = some conn ∧ e.packet = command :: payload ∧
      Turn e.moment conn command payload (Command.of command) frames conn' ∧
      written (es ++ [e]) = written es ++ encodeAll frames := by
  cases hes : after es with
  | none => rw [(run_over hes e).2] at h; cases h
  | some conn =>
    cases hends : e.ends conn.state.config.isSome with
    | true => rw [(run_ends hssl hes hends).2] at h; cases h
    | false =>
      obtain ⟨command, payload, frames, conn'', hpacket, hturn⟩ := react_goes_on hssl hends
      obtain ⟨hwritten, hafter⟩ := run_turn hssl hes hpacket hturn
      rw [hafter] at h
      cases h
      exact ⟨conn, command, payload, frames, rfl, hpacket, hturn, hwritten⟩

/-! ## What the packets say -/

/-- The configuration of the open message, as the packets determine it: looked up by M and by the
first L, dropped at E and A. -/
def captureStep (c : Option (RuntimeConfig Key)) (e : Event Key) : Option (RuntimeConfig Key) :=
  match e.kind with
  | some .M => e.moment.active
  | some .L => if c.isSome then c else e.moment.active
  | some .E | some .A => none
  | _ => c

def captured (es : List (Event Key)) : Option (RuntimeConfig Key) := es.foldl captureStep none

/-- The actions and protocol of the latest whole offer. -/
def agreedStep (a : UInt32 × UInt32) (e : Event Key) : UInt32 × UInt32 :=
  match e.kind, readOffer e.payload with
  | some .O, some (version, offered, flags) => (grantedActions offered, agreedProtocol version flags)
  | _, _ => a

def agreed (es : List (Event Key)) : UInt32 × UInt32 := es.foldl agreedStep (0, 0)

@[simp] theorem captured_snoc (es : List (Event Key)) (e : Event Key) : captured (es ++ [e]) = captureStep (captured es) e := by
  simp [captured]

@[simp] theorem agreed_snoc (es : List (Event Key)) (e : Event Key) : agreed (es ++ [e]) = agreedStep (agreed es) e := by
  simp [agreed]

/-- The state of the loop is what the packets say. -/
structure Conn.Follows (conn : Conn Key) (es : List (Event Key)) : Prop where
  config : conn.state.config = captured es
  actions : conn.actions = (agreed es).1
  protocol : conn.protocol = (agreed es).2

theorem fail_config (state : MessageState Key) (reason : String) : (state.fail reason).config = state.config := by
  unfold MessageState.fail
  split <;> rfl

theorem fail_error (state : MessageState Key) (reason : String) : (state.fail reason).error ≠ none := by
  unfold MessageState.fail
  split
  · simp
  · simpa using (by assumption : ¬ state.error.isNone = true)

theorem Received.config {state st : MessageState Key} {payload : Bytes} (h : Received state payload st) :
    st.config = state.config := by
  cases h <;> rfl

theorem agreedStep_other {a : UInt32 × UInt32} {e : Event Key} (h : e.kind ≠ some .O) : agreedStep a e = a := by
  unfold agreedStep
  split
  case h_1 hkind _ => exact absurd hkind h
  case h_2 => rfl

theorem agreedStep_offer {a : UInt32 × UInt32} {e : Event Key} {version offered flags : UInt32} (h : e.kind = some .O)
    (hoffer : readOffer e.payload = some (version, offered, flags)) :
    agreedStep a e = (grantedActions offered, agreedProtocol version flags) := by
  rw [agreedStep, h, hoffer]

/-- A turn keeps the state in step with the packets. -/
theorem Conn.Follows.turn {conn conn' : Conn Key} {es : List (Event Key)} {e : Event Key} {command : UInt8}
    {payload : Bytes} {frames : List Frame} (h : conn.Follows es) (hpacket : e.packet = command :: payload)
    (hturn : Turn e.moment conn command payload (Command.of command) frames conn') : conn'.Follows (es ++ [e]) := by
  have hkind : e.kind = some (Command.of command) := by rw [Event.kind, hpacket]; rfl
  have hpayload : e.payload = payload := by rw [Event.payload, hpacket]; rfl
  obtain ⟨hc, ha, hp⟩ := h
  -- all but the offer leave what was agreed alone
  have hkeep : Command.of command ≠ .O → conn'.actions = conn.actions → conn'.protocol = conn.protocol →
      conn'.state.config = captureStep (captured es) e → conn'.Follows (es ++ [e]) := by
    intro hne hactions hprotocol hconfig
    have hagreed : agreed (es ++ [e]) = agreed es := by
      rw [agreed_snoc, agreedStep_other (by rw [hkind]; simpa using hne)]
    exact ⟨by rw [captured_snoc, hconfig], by rw [hagreed, hactions, ha], by rw [hagreed, hprotocol, hp]⟩
  generalize Command.of command = kind at hkind hturn hkeep
  cases hturn with
  | offer hn =>
    cases hoffer : readOffer payload with
    | none => rw [negotiate_of_none hoffer] at hn; cases hn
    | some offer =>
      obtain ⟨version, offered, flags⟩ := offer
      rw [negotiate_of_offer hoffer] at hn
      have hagreed : agreed (es ++ [e]) = (grantedActions offered, agreedProtocol version flags) := by
        rw [agreed_snoc, agreedStep_offer hkind (by rw [hpayload, hoffer])]
      cases hn
      exact ⟨by rw [captured_snoc, captureStep, hkind]; exact hc, by rw [hagreed], by rw [hagreed]⟩
  | begin hactive => exact hkeep (by simp) rfl rfl (by rw [captureStep, hkind, hactive]; rfl)
  | header hopened hstate =>
    refine hkeep (by simp) rfl rfl ?_
    obtain ⟨st, hst, hreceived⟩ := receiveHeader_spec _ _
    obtain rfl : st = _ := Exec.ok.inj (hst.symm.trans hstate)
    rw [captureStep, hkind, hreceived.config]
    rcases openMessage_eq.1 hopened with ⟨hsome, rfl⟩ | ⟨hnone, config, hactive, rfl⟩
    · simp only [← hc, hsome, if_true]
    · simp only [← hc, hnone, hactive, Option.isSome_none, Bool.false_eq_true, if_false]
      rfl
  | body hstate =>
    refine hkeep (by simp) rfl rfl ?_
    rw [receiveBody_eq] at hstate
    cases hstate
    rw [captureStep, hkind, ← hc]
    simp only
    split
    · exact fail_config _ _
    · split <;> rfl
  | finish => exact hkeep (by simp) rfl rfl (by rw [captureStep, hkind]; rfl)
  | abort => exact hkeep (by simp) rfl rfl (by rw [captureStep, hkind]; rfl)
  | defineMacros => exact hkeep (by simp) rfl rfl (by rw [captureStep, hkind]; exact hc)
  | plain => exact hkeep (by simp) rfl rfl (by rw [captureStep, hkind]; exact hc)

/-- **What the packets say is the state of every run.** -/
theorem run_inv {es : List (Event Key)} (hssl : Documented es) {conn : Conn Key} (h : after es = some conn) :
    conn.Follows es := by
  induction es using List.reverseRecOn generalizing conn with
  | nil => cases h; exact ⟨rfl, rfl, rfl⟩
  | append_singleton es e ih =>
    obtain ⟨conn', command, payload, frames, hes, hpacket, hturn, -⟩ := turn_of_after hssl.last h
    exact (ih hssl.left hes).turn hpacket hturn

end

end DkimLite
