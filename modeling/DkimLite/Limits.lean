import DkimLite.Connection
import DkimLite.Message

/-!
# Resource limits

A connection can stay open for long and send any number of packets, so what it makes the daemon
hold is bounded in every state the loop reaches. `MessageState.Bounded` is the invariant: at most
`MAX_HEADERS` fields of at most `MAX_HEADER_BYTES` bytes, counted exactly while nothing has failed.
A message that has failed does not grow any more (`failed_stays`), and `next_field` says that the
limits themselves are still accepted.
-/

namespace DkimLite
open Rust Text

section
variable {Key : Type}

/-! ## The invariant -/

structure MessageState.Bounded (state : MessageState Key) : Prop where
  count : state.headers.length ≤ maxHeaders
  bytes : bytesOf state.headers ≤ maxHeaderBytes
  counted : state.error = none → state.headerBytes = bytesOf state.headers
  /-- without a message there are no fields -/
  fresh : state.config = none → state.headers = []

theorem bounded_empty (config : Option (RuntimeConfig Key)) : ({ config } : MessageState Key).Bounded where
  count := Nat.zero_le _
  bytes := Nat.zero_le _
  counted _ := rfl
  fresh _ := rfl

/-- The limits are tested before a field is added, on what the state is going to hold. -/
theorem fits_iff {state : MessageState Key} (h : state.headerBytes = bytesOf state.headers) (f : Header) :
    state.Fits f ↔ (state.headers ++ [f]).length ≤ maxHeaders ∧ bytesOf (state.headers ++ [f]) ≤ maxHeaderBytes := by
  have hmax : maxHeaderBytes < usizeMax := by decide
  rw [MessageState.Fits, bytesOf_append, List.length_append, List.length_singleton, h, saturatingAdd]
  omega

theorem MessageState.Bounded.received {state st : MessageState Key} {payload : Bytes} (h : state.Bounded)
    (hconfig : state.config.isSome = true) (hst : Received state payload st) : st.Bounded := by
  cases hst with
  | skipped => exact h
  | @added f herr _ hfits =>
    obtain ⟨hcount, hbytes⟩ := (fits_iff (h.counted herr) f).1 hfits
    refine ⟨hcount, hbytes, fun _ => ?_, fun hnone => ?_⟩
    · have hmax : maxHeaderBytes < usizeMax := by decide
      have hlimit := hfits.2
      simp only [bytesOf_append, ← h.counted herr]
      rw [saturatingAdd] at hlimit ⊢
      omega
    · rw [hnone] at hconfig
      cases hconfig
  | rejected => exact ⟨h.count, h.bytes, fun hnone => (by cases hnone), h.fresh⟩

theorem MessageState.Bounded.receiveBody {state st : MessageState Key} {payload : Bytes} (h : state.Bounded)
    (hst : receiveBody state payload = .ok st) : st.Bounded := by
  rw [receiveBody_eq] at hst
  cases hst
  split
  · unfold MessageState.fail
    split
    · exact ⟨h.count, h.bytes, fun hnone => (by cases hnone), h.fresh⟩
    · exact h
  · split
    · exact ⟨h.count, h.bytes, h.counted, h.fresh⟩
    · exact h

/-- **The step.** -/
theorem MessageState.Bounded.turn {moment : Moment Key} {conn conn' : Conn Key} {command : UInt8} {payload : Bytes}
    {frames : List Frame} {kind : Command} (h : conn.state.Bounded)
    (hturn : Turn moment conn command payload kind frames conn') : conn'.state.Bounded := by
  cases hturn with
  | offer => exact h
  | begin => exact bounded_empty _
  | header hopened hstate =>
    obtain ⟨st, hst, hreceived⟩ := receiveHeader_spec _ payload
    obtain rfl : st = _ := Exec.ok.inj (hst.symm.trans hstate)
    rcases openMessage_eq.1 hopened with ⟨hsome, rfl⟩ | ⟨-, config, -, rfl⟩
    · exact h.received hsome hreceived
    · exact (bounded_empty (some config)).received rfl hreceived
  | body hstate => exact h.receiveBody hstate
  | finish => exact bounded_empty none
  | abort => exact bounded_empty none
  | defineMacros => exact h
  | plain => exact h

/-- **Every run stays within the limits.** -/
theorem run_bounded {es : List (Event Key)} (hssl : Documented es) {conn : Conn Key} (h : after es = some conn) :
    conn.state.Bounded := by
  induction es using List.reverseRecOn generalizing conn with
  | nil => cases h; exact bounded_empty none
  | append_singleton es e ih =>
    obtain ⟨conn', command, payload, frames, hes, -, hturn, -⟩ := turn_of_after hssl.last h
    exact (ih hssl.left hes).turn hturn

/-! ## A failed message -/

/-- The packets that leave a message: M, E, A, and an L when no message is open. -/
def leavesMessage (isOpen : Bool) (packet : Bytes) : Bool :=
  match kindOf packet with
  | some .M | some .E | some .A => true
  | some .L => !isOpen
  | _ => false

/-- A packet that does not leave a failed message does not touch its state. -/
theorem failed_turn {e : Event Key} {conn conn' : Conn Key} {command : UInt8} {payload : Bytes} {frames : List Frame}
    (herr : conn.state.error.isSome = true) (hleaves : leavesMessage conn.state.config.isSome e.packet = false)
    (hpacket : e.packet = command :: payload)
    (hturn : Turn e.moment conn command payload (Command.of command) frames conn') : conn'.state = conn.state := by
  rw [leavesMessage, ← Event.kind, (event_of_packet hpacket).1] at hleaves
  generalize Command.of command = kind at hturn hleaves
  cases hturn with
  | offer => rfl
  | header hopened hstate =>
    rcases openMessage_eq.1 hopened with ⟨-, rfl⟩ | ⟨hnone, -⟩
    · rw [receiveHeader, if_pos herr] at hstate
      cases hstate
      rfl
    · rw [hnone] at hleaves
      cases hleaves
  | body hstate =>
    have hsome : conn.state.error.isNone = false := by rw [← Option.not_isSome, herr]; rfl
    rw [receiveBody_eq, MessageState.fail, hsome] at hstate
    simp only [Bool.false_eq_true, if_false, ite_self] at hstate
    cases hstate
    rfl
  | defineMacros => rfl
  | plain => rfl
  | begin => cases hleaves
  | finish => cases hleaves
  | abort => cases hleaves

/-- **A failed message stays as it is** until a packet leaves it. -/
theorem failed_stays {h es : List (Event Key)} (hssl : Documented (h ++ es)) {conn conn' : Conn Key}
    (hafter : after h = some conn) (herr : conn.state.error.isSome = true)
    (hes : ∀ e ∈ es, leavesMessage conn.state.config.isSome e.packet = false) (hafter' : after (h ++ es) = some conn') :
    conn'.state = conn.state := by
  induction es using List.reverseRecOn generalizing conn' with
  | nil =>
    rw [List.append_nil, hafter] at hafter'
    cases hafter'
    rfl
  | append_singleton es e ih =>
    rw [← List.append_assoc] at hssl hafter'
    obtain ⟨conn'', command, payload, frames, hes', hpacket, hturn, -⟩ := turn_of_after hssl.last hafter'
    have hsame := ih hssl.left (fun x hx => hes x (by simp [hx])) hes'
    rw [failed_turn (by rw [hsame, herr]) (by rw [hsame]; exact hes e (by simp)) hpacket hturn, hsame]

/-! ## The next field -/

/-- An L packet adds its field if that keeps the message within the limits, and fails it otherwise. -/
theorem received_field {state st : MessageState Key} {payload : Bytes} (herr : state.error = none)
    (hcounted : state.headerBytes = bytesOf state.headers) (hst : Received state payload st) :
    (∃ f : Header, payload = f.wire ∧ (state.headers ++ [f]).length ≤ maxHeaders ∧
        bytesOf (state.headers ++ [f]) ≤ maxHeaderBytes ∧ st.error = none ∧ st.headers = state.headers ++ [f]) ∨
      (∀ f : Header, payload = f.wire →
        maxHeaders < (state.headers ++ [f]).length ∨ maxHeaderBytes < bytesOf (state.headers ++ [f])) ∧
      st.error.isSome = true ∧ st.headers = state.headers := by
  cases hst with
  | skipped hsome => rw [herr] at hsome; cases hsome
  | @added f _ hwire hfits =>
    obtain ⟨hcount, hbytes⟩ := (fits_iff hcounted f).1 hfits
    exact Or.inl ⟨f, hwire, hcount, hbytes, herr, rfl⟩
  | rejected _ hno =>
    refine Or.inr ⟨fun f hf => ?_, rfl, rfl⟩
    have := hno f hf
    rw [fits_iff hcounted f] at this
    omega

theorem next_field {h : List (Event Key)} {e : Event Key} (hssl : Documented (h ++ [e])) (hkind : e.kind = some .L)
    {conn conn' : Conn Key} (hafter : after h = some conn) (herr : conn.state.error = none)
    (hafter' : after (h ++ [e]) = some conn') :
    (∃ f : Header, e.payload = f.wire ∧ (conn.state.headers ++ [f]).length ≤ maxHeaders ∧
        bytesOf (conn.state.headers ++ [f]) ≤ maxHeaderBytes ∧
        conn'.state.error = none ∧ conn'.state.headers = conn.state.headers ++ [f]) ∨
      (∀ f : Header, e.payload = f.wire →
        maxHeaders < (conn.state.headers ++ [f]).length ∨ maxHeaderBytes < bytesOf (conn.state.headers ++ [f])) ∧
      conn'.state.error.isSome = true ∧ conn'.state.headers = conn.state.headers := by
  have hbounded := run_bounded hssl.left hafter
  obtain ⟨conn'', command, payload, frames, hes, hpacket, hturn, -⟩ := turn_of_after hssl.last hafter'
  obtain rfl : conn = conn'' := Option.some.inj (hafter.symm.trans hes)
  obtain ⟨hcommand, hpayload⟩ := event_of_packet hpacket
  rw [hcommand] at hkind
  rw [Option.some.inj hkind] at hturn
  rw [hpayload]
  cases hturn with
  | header hopened hstate =>
    obtain ⟨st, hst, hreceived⟩ := receiveHeader_spec _ payload
    obtain rfl : st = _ := Exec.ok.inj (hst.symm.trans hstate)
    rcases openMessage_eq.1 hopened with ⟨-, rfl⟩ | ⟨hnone, config, -, rfl⟩
    · exact received_field herr (hbounded.counted herr) hreceived
    · -- the message starts with this field
      rw [hbounded.fresh hnone]
      exact received_field rfl rfl hreceived

/-! ## Connections -/

/-- **The limits hold in every state the loop reaches.** At most 1000 fields of at most 1 MiB are
held, exactly counted while there is no error, and the packet buffer holds at most 1 MiB. After
an error nothing is added until a packet leaves the message. An L packet is kept if 1000 fields
and 1 MiB are not exceeded, and fails the message otherwise. -/
theorem limits_hold {moments : Nat → Moment Key} (hssl : ∀ k, (moments k).env.ssl.Documented) {s t : Socket}
    {conn : Conn Key} {buffer : Bytes} {count : Nat}
    (h : Action.Reaches (turn Socket.reader Socket.writer moments) ({}, [], 0) s (conn, buffer, count) t) :
    (conn.state.headers.length ≤ 1000 ∧ bytesOf conn.state.headers ≤ 1024 * 1024 ∧
      (conn.state.error = none → conn.state.headerBytes = bytesOf conn.state.headers) ∧ buffer.length ≤ 1024 * 1024) ∧
    ∃ packets, Stands moments s packets (conn, buffer, count) t ∧
      (∀ more conn', after (eventsOf moments (packets ++ more)) = some conn' → conn.state.error.isSome = true →
        (∀ p ∈ more, leavesMessage conn.state.config.isSome p = false) → conn'.state = conn.state) ∧
      (∀ payload conn', after (eventsOf moments (packets ++ [byte 'L' :: payload])) = some conn' → conn.state.error = none →
        ((∃ f : Header, payload = f.wire ∧ (conn.state.headers ++ [f]).length ≤ 1000 ∧
            bytesOf (conn.state.headers ++ [f]) ≤ 1024 * 1024 ∧
            conn'.state.error = none ∧ conn'.state.headers = conn.state.headers ++ [f]) ∨
          (∀ f : Header, payload = f.wire →
            1000 < (conn.state.headers ++ [f]).length ∨ 1024 * 1024 < bytesOf (conn.state.headers ++ [f])) ∧
          conn'.state.error.isSome = true ∧ conn'.state.headers = conn.state.headers)) := by
  obtain ⟨packets, hstands⟩ := connection_follows hssl h
  have hafter : after (eventsOf moments packets) = some conn := hstands.conn
  have hbounded := run_bounded (eventsOf_documented hssl packets) hafter
  refine ⟨⟨hbounded.count, hbounded.bytes, hbounded.counted, ?_⟩, packets, hstands, ?_, ?_⟩
  · have hbuffer : buffer = packets.getLast?.getD [] := hstands.buffer
    rw [hbuffer]
    cases hlast : packets.getLast? with
    | none => exact Nat.zero_le _
    | some p => exact (hstands.sizes p (List.mem_of_getLast? hlast)).2
  · intro more conn' hafter' herr hmore
    have hsplit : ∃ es, eventsOf moments (packets ++ more) = eventsOf moments packets ++ es ∧ ∀ e ∈ es, e.packet ∈ more := by
      refine ⟨_, List.mapIdx_append, fun e he => ?_⟩
      obtain ⟨i, hi, rfl⟩ := List.mem_mapIdx.1 he
      exact List.getElem_mem hi
    obtain ⟨es, hes, hpackets⟩ := hsplit
    have hdoc := eventsOf_documented hssl (packets ++ more)
    rw [hes] at hafter' hdoc
    exact failed_stays hdoc hafter herr (fun e he => hmore e.packet (hpackets e he)) hafter'
  · intro payload conn' hafter' herr
    have hdoc := eventsOf_documented hssl (packets ++ [byte 'L' :: payload])
    rw [eventsOf_snoc] at hafter' hdoc
    exact next_field hdoc (by rfl) hafter herr hafter'

end

/-- A field before any M, read and answered four bytes at a time. -/
def exampleOneField : Socket where
  deadline := 100
  ticks := List.replicate 12 ⟨0, .ok (), .ok 4, 0⟩
  input := encodePacket (byte 'L' :: exampleFrom.wire)

/-- Whether a turn goes on with just this field. -/
def goesOnWith (field : Header) : Outcome String Socket (Flow (Conn Unit × Bytes × Nat) Unit) → Bool
  | .ok (.again v) _ => decide (v.1.state.headers = [field])
  | _ => false

theorem limits_hold_one_field : ∃ conn buffer count t,
    Action.Reaches (turn Socket.reader Socket.writer fun _ => ⟨some exampleConfig, exampleEnv⟩) ({}, [], 0) exampleOneField
        (conn, buffer, count) t ∧
      conn.state.headers = [exampleFrom] ∧ conn.state.headers.length ≤ 1000 ∧ buffer.length ≤ 1024 * 1024 := by
  have hgoes : goesOnWith exampleFrom (turn Socket.reader Socket.writer (fun _ => ⟨some exampleConfig, exampleEnv⟩) ({}, [], 0)
      exampleOneField) = true := by
    decide +kernel
  cases hone : turn Socket.reader Socket.writer (fun _ => ⟨some exampleConfig, exampleEnv⟩) ({}, [], 0) exampleOneField with
  | ok flow t =>
    rw [hone] at hgoes
    cases flow with
    | again v =>
      obtain ⟨conn, buffer, count⟩ := v
      have hheaders : conn.state.headers = [exampleFrom] := of_decide_eq_true hgoes
      have hreach := Action.Reaches.next .here hone
      have hlimits := (limits_hold (fun _ => exampleSsl_documented) hreach).1
      exact ⟨conn, buffer, count, t, hreach, hheaders, hlimits.1, hlimits.2.2.2⟩
    | done => cases hgoes
  | err => rw [hone] at hgoes; cases hgoes
  | panic => rw [hone] at hgoes; cases hgoes
  | pending => rw [hone] at hgoes; cases hgoes

end DkimLite
