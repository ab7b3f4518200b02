import DkimLite.Connection
import DkimLite.Rust.Along

/-!
# The deadline of a connection

A tick that is used up is one operation on the socket; `Tick.readings` is what its operation reads
off the clock, and `Tick.call?` the call it makes. Everything that is done on a socket, by
`read_exact`, by `write_all` and by the whole of `handle_connection_until`, is a course of operations
whose readings are all before the deadline, or it ends, with the error of the deadline, at the
first reading that is not (`connection_keeps`). So the fragments of a session share one deadline.
-/

namespace DkimLite
open Rust Text

/-! ## Ticks used up -/

/-- The call made on a socket of this deadline. -/
def Tick.call? (deadline : Nat) (tick : Tick) : Option Call :=
  if tick.before < deadline ∧ tick.setTimeout = .ok () then some ⟨tick.before, deadline - tick.before⟩ else none

/-- The readings of the clock; without a call there is none after it. -/
def Tick.readings (deadline : Nat) (tick : Tick) : List Nat :=
  if (tick.call? deadline).isSome then [tick.before, tick.after] else [tick.before]

/-- Every reading was before the deadline. -/
def Timely (deadline : Nat) (used : List Tick) : Prop := ∀ tick ∈ used, ∀ now ∈ tick.readings deadline, now < deadline

/-- From `s` to `t` the ticks `used` were used up, and the calls are theirs. -/
structure Spends (s t : Socket) (used : List Tick) : Prop where
  deadline : t.deadline = s.deadline
  ticks : s.ticks = used ++ t.ticks
  calls : t.calls = s.calls ++ used.filterMap (·.call? s.deadline)

theorem Timely.nil (deadline : Nat) : Timely deadline [] := by simp [Timely]

theorem Timely.append {deadline : Nat} {a b : List Tick} (ha : Timely deadline a) (hb : Timely deadline b) :
    Timely deadline (a ++ b) := by
  intro tick htick
  rcases List.mem_append.1 htick with h | h
  · exact ha tick h
  · exact hb tick h

theorem Spends.refl (s : Socket) : Spends s s [] := ⟨rfl, rfl, by simp⟩

theorem Spends.trans {s t u : Socket} {a b : List Tick} (hs : Spends s t a) (ht : Spends t u b) : Spends s u (a ++ b) where
  deadline := ht.deadline.trans hs.deadline
  ticks := by rw [hs.ticks, ht.ticks, List.append_assoc]
  calls := by rw [ht.calls, hs.calls, hs.deadline, List.filterMap_append, List.append_assoc]

/-- Operations in time; and operations of which the last, and no other, read the clock too late. -/
def timely : Course Socket where
  along s t := ∃ used, Spends s t used ∧ Timely s.deadline used
  ends s t := ∃ used tick, Spends s t (used ++ [tick]) ∧ Timely s.deadline used ∧ ¬ Timely s.deadline [tick]
  refl s := ⟨[], .refl s, .nil _⟩
  trans := by
    rintro s t u ⟨a, hs, ha⟩ ⟨b, ht, hb⟩
    exact ⟨a ++ b, hs.trans ht, ha.append (hs.deadline ▸ hb)⟩
  last := by
    rintro s t u ⟨a, hs, ha⟩ ⟨b, tick, ht, hb, hlate⟩
    refine ⟨a ++ b, tick, ?_, ha.append (hs.deadline ▸ hb), hs.deadline ▸ hlate⟩
    rw [List.append_assoc]
    exact hs.trans ht

/-! ## One operation -/

def lifetimeExceeded : IoError := ⟨.timedOut, "milter connection lifetime exceeded"⟩

theorem remaining_of_lt {deadline now : Nat} (h : now < deadline) : remaining deadline now = .ok (deadline - now) := if_pos h

theorem remaining_of_le {deadline now : Nat} (h : deadline ≤ now) : remaining deadline now = .error lifetimeExceeded :=
  if_neg (Nat.not_lt.2 h)

section
variable {s : Socket} {tick : Tick} {ticks : List Tick}

theorem call?_late (h : s.deadline ≤ tick.before) : tick.call? s.deadline = none :=
  if_neg fun hand => Nat.not_lt.2 h hand.1

theorem call?_timeout {e : IoError} (h : tick.setTimeout = .error e) : tick.call? s.deadline = none := by
  refine if_neg fun hand => ?_
  rw [h] at hand
  cases hand.2

theorem call?_made (h : tick.before < s.deadline) (hset : tick.setTimeout = .ok ()) :
    tick.call? s.deadline = some ⟨tick.before, s.deadline - tick.before⟩ := if_pos ⟨h, hset⟩

/-- Without a call. -/
theorem spends_idle (hticks : s.ticks = tick :: ticks) (hcall : tick.call? s.deadline = none) :
    Spends s { s with ticks } [tick] where
  deadline := rfl
  ticks := hticks
  calls := by simp [hcall]

theorem timely_idle (hcall : tick.call? s.deadline = none) (h : tick.before < s.deadline) : Timely s.deadline [tick] := by
  simpa [Timely, Tick.readings, hcall] using h

theorem timely_call {c : Call} (hcall : tick.call? s.deadline = some c) (h : tick.before < s.deadline) :
    Timely s.deadline [tick] ↔ tick.after < s.deadline := by
  simp [Timely, Tick.readings, hcall, h]

theorem not_timely_of_late (h : s.deadline ≤ tick.before) : ¬ Timely s.deadline [tick] := by
  intro htimely
  have hmem : tick.before ∈ tick.readings s.deadline := by
    unfold Tick.readings
    split <;> simp
  exact Nat.not_lt.2 h (htimely tick (by simp) _ hmem)

end

/-- The socket after a call, whatever was moved. -/
structure Made (s : Socket) (tick : Tick) (ticks : List Tick) (u : Socket) : Prop where
  deadline : u.deadline = s.deadline
  ticks : u.ticks = ticks
  calls : u.calls = s.calls ++ [⟨tick.before, s.deadline - tick.before⟩]

/-- The outcomes of an operation. -/
inductive Called {α : Type} (s : Socket) (tick : Tick) (ticks : List Tick) : Outcome IoError Socket α → Prop
  | late (hlate : s.deadline ≤ tick.before) : Called s tick ticks (.err lifetimeExceeded { s with ticks })
  | timeout {e : IoError} (hbefore : tick.before < s.deadline) (hset : tick.setTimeout = .error e) :
      Called s tick ticks (.err e { s with ticks })
  | expired {u : Socket} (hbefore : tick.before < s.deadline) (hset : tick.setTimeout = .ok ()) (hu : Made s tick ticks u)
      (hlate : s.deadline ≤ tick.after) : Called s tick ticks (.err lifetimeExceeded u)
  | failed {e : IoError} {u : Socket} (hbefore : tick.before < s.deadline) (hset : tick.setTimeout = .ok ())
      (hu : Made s tick ticks u) (hafter : tick.after < s.deadline) : Called s tick ticks (.err e u)
  | done {a : α} {u : Socket} (hbefore : tick.before < s.deadline) (hset : tick.setTimeout = .ok ())
      (hu : Made s tick ticks u) (hafter : tick.after < s.deadline) : Called s tick ticks (.ok a u)

/-- What is moved is bytes only. -/
def Moves {α : Type} (move : Socket → Nat → α × Socket) : Prop :=
  ∀ u n, (move u n).2.deadline = u.deadline ∧ (move u n).2.ticks = u.ticks ∧ (move u n).2.calls = u.calls

section
variable {α : Type} {move : Socket → Nat → α × Socket} {s : Socket} {tick : Tick} {ticks : List Tick}

theorem spends_call {u : Socket} (hticks : s.ticks = tick :: ticks)
    (hcall : tick.call? s.deadline = some ⟨tick.before, s.deadline - tick.before⟩) (hu : Made s tick ticks u) :
    Spends s u [tick] where
  deadline := hu.deadline
  ticks := by rw [hticks, hu.ticks]; rfl
  calls := by simp [hcall, hu.calls]

theorem call_cases (hmove : Moves move) (hticks : s.ticks = tick :: ticks) : Called s tick ticks (Socket.call move s) := by
  unfold Socket.call
  rw [hticks]
  simp only
  rcases Nat.lt_or_ge tick.before s.deadline with hbefore | hbefore
  · rw [remaining_of_lt hbefore]
    cases hset : tick.setTimeout with
    | error e => exact .timeout hbefore hset
    | ok _ =>
      simp only
      cases tick.answer with
      | error e =>
        simp only
        rcases Nat.lt_or_ge tick.after s.deadline with hafter | hafter
        · rw [remaining_of_lt hafter]
          exact .failed hbefore hset ⟨rfl, rfl, rfl⟩ hafter
        · rw [remaining_of_le hafter]
          exact .expired hbefore hset ⟨rfl, rfl, rfl⟩ hafter
      | ok n =>
        obtain ⟨hdeadline, hrest, hcalls⟩ :=
          hmove { s with ticks, calls := s.calls ++ [⟨tick.before, s.deadline - tick.before⟩] } n
        simp only [hdeadline]
        rcases Nat.lt_or_ge tick.after s.deadline with hafter | hafter
        · rw [remaining_of_lt hafter]
          exact .done hbefore hset ⟨hdeadline, hrest, hcalls⟩ hafter
        · rw [remaining_of_le hafter]
          exact .expired hbefore hset ⟨hdeadline, hrest, hcalls⟩ hafter
  · rw [remaining_of_le hbefore]
    exact .late hbefore

/-- **One operation is on the course**: it fails before its call, or makes it; and then it fails if
the call has ended too late. -/
theorem call_keeps (hmove : Moves move) : timely.Keeps (· = lifetimeExceeded) (Socket.call move) := by
  intro s
  cases hticks : s.ticks with
  | nil =>
    unfold Socket.call
    rw [hticks]
    exact timely.refl s
  | cons tick ticks =>
    have hcases := call_cases hmove hticks
    generalize Socket.call move s = o at hcases ⊢
    cases hcases with
    | late hlate => exact Or.inr ⟨rfl, [], tick, spends_idle hticks (call?_late hlate), .nil _, not_timely_of_late hlate⟩
    | timeout hbefore hset =>
      have hcall := call?_timeout (s := s) hset
      exact Or.inl ⟨[tick], spends_idle hticks hcall, timely_idle hcall hbefore⟩
    | expired hbefore hset hu hlate =>
      have hcall := call?_made hbefore hset
      refine Or.inr ⟨rfl, [], tick, spends_call hticks hcall hu, .nil _, ?_⟩
      rw [timely_call hcall hbefore]
      exact Nat.not_lt.2 hlate
    | failed hbefore hset hu hafter =>
      have hcall := call?_made hbefore hset
      exact Or.inl ⟨[tick], spends_call hticks hcall hu, (timely_call hcall hbefore).2 hafter⟩
    | done hbefore hset hu hafter =>
      have hcall := call?_made hbefore hset
      exact ⟨[tick], spends_call hticks hcall hu, (timely_call hcall hbefore).2 hafter⟩

end

theorem read_keeps (length : Nat) : timely.Keeps (· = lifetimeExceeded) (Socket.read length) :=
  call_keeps fun _ _ => ⟨rfl, rfl, rfl⟩

theorem write_keeps (buf : Bytes) : timely.Keeps (· = lifetimeExceeded) (Socket.write buf) :=
  call_keeps fun _ _ => ⟨rfl, rfl, rfl⟩

theorem flush_keeps : timely.Keeps (· = lifetimeExceeded) Socket.flush :=
  call_keeps fun _ _ => ⟨rfl, rfl, rfl⟩

theorem lifetimeExceeded_kind : ∀ e, e = lifetimeExceeded → e.kind ≠ .interrupted := by
  rintro _ rfl
  decide

theorem reader_keeps (buf : Bytes) : timely.Keeps (· = lifetimeExceeded) (Socket.reader.readExact buf) :=
  Course.readExact_keeps read_keeps lifetimeExceeded_kind buf

theorem writer_keeps (buf : Bytes) : timely.Keeps (· = lifetimeExceeded) (Socket.writer.writeAll buf) :=
  Course.writeAll_keeps write_keeps lifetimeExceeded_kind buf

/-! ## The connection -/

section
variable {Key σ : Type} {c : Course σ} {final : IoError → Prop} {finalText : String → Prop}

/-- What is sent in reply to a packet keeps to a course that the writer keeps to. -/
theorem onPacket_keeps {stream : Writer σ} (hwrite : ∀ buf, c.Keeps final (stream.writeAll buf))
    (hflush : c.Keeps final stream.flush) (hfinal : ∀ e, final e → finalText (cannotWrite e)) (moment : Moment Key)
    (conn : Conn Key) (packet : Bytes) : c.Keeps finalText (onPacket stream moment conn packet) := by
  have hstatus : ∀ status, c.Keeps finalText (writeStatus stream status) :=
    fun _ => ((hwrite _).bind fun _ => hflush).mapErr hfinal
  have hcontinue : ∀ protocol command, c.Keeps finalText (writeContinueIfNeeded stream protocol command) := by
    intro protocol command
    unfold writeContinueIfNeeded
    split
    · exact hstatus _
    · exact Course.keeps_pure _
  have hpacket : ∀ command payload, c.Keeps finalText (writePacket stream command payload) := by
    intro command payload
    simp only [writePacket]
    split
    · exact Course.keeps_throw _
    · exact ((hwrite _).bind fun _ => hflush).mapErr hfinal
  have hsign : ∀ state, c.Keeps finalText (signMessage stream moment.env state conn.actions) := by
    intro state
    simp only [signMessage]
    split
    · exact Course.keeps_throw _
    · split
      · split
        · exact (hpacket _ _).bind fun _ => Course.keeps_pure _
        · exact (hpacket _ _).bind fun _ => Course.keeps_pure _
      · exact Course.keeps_pure _
      · exact fun _ => trivial
  have hfinish : c.Keeps finalText (finishMessage stream moment.env conn.state conn.actions) := by
    simp only [finishMessage]
    split
    · exact (hsign _).bind fun _ => (hstatus _).bind fun _ => Course.keeps_pure _
    · exact (Course.keeps_pure _).bind fun _ => (hstatus _).bind fun _ => Course.keeps_pure _
  cases packet with
  | nil => exact Course.keeps_throw _
  | cons command payload =>
    rw [onPacket, onCommand]
    cases Command.of command with
    | O => exact (Course.keeps_lift _ _).bind fun _ => (hpacket _ _).bind fun _ => Course.keeps_pure _
    | M => exact (Course.keeps_lift _ _).bind fun _ => (hcontinue _ _).bind fun _ => Course.keeps_pure _
    | L => exact (Course.keeps_lift _ _).bind fun _ => (hcontinue _ _).bind fun _ => Course.keeps_pure _
    | B => exact (Course.keeps_lift _ _).bind fun _ => (hcontinue _ _).bind fun _ => Course.keeps_pure _
    | E => exact hfinish.bind fun _ => Course.keeps_pure _
    | A => exact Course.keeps_pure _
    | close => exact Course.keeps_pure _
    | D => exact Course.keeps_pure _
    | plain => exact (hcontinue _ _).bind fun _ => Course.keeps_pure _
    | unsupported => exact Course.keeps_throw _

theorem readPacketInto_keeps {stream : Reader σ} (hread : ∀ buf, c.Keeps final (stream.readExact buf))
    (hfinal : ∀ e, final e → e.kind ≠ .unexpectedEof) (packet : Bytes) : c.Keeps final (readPacketInto stream packet) := by
  unfold readPacketInto
  refine (hread _).matched (fun r => ?_) fun e he => ⟨e, he, if_neg (hfinal e he)⟩
  cases r with
  | error e =>
    simp only
    split
    · exact Course.keeps_pure _
    · exact Course.keeps_throw _
  | ok length =>
    refine (Course.keeps_lift _ _).bind fun length => ?_
    split
    · exact Course.keeps_throw _
    · exact (hread _).bind fun _ => Course.keeps_pure _

end

/-- The error a connection ends with at its deadline. -/
def LifetimeError (text : String) : Prop := text = lifetimeExceeded.text ∨ text = cannotWrite lifetimeExceeded

/-- **A connection is on the course**, from its first packet to its end. -/
theorem connection_keeps {Key : Type} (moments : Nat → Moment Key) :
    timely.Keeps LifetimeError (handleConnectionUntil moments) := by
  intro s
  refine Course.keeps_loop (fun v => ?_) _ _ s
  obtain ⟨conn, packet, count⟩ := v
  rw [turn]
  refine (readPacketInto_keeps reader_keeps (by rintro _ rfl; decide) packet).matched (fun r => ?_) ?_
  · cases r with
    | error e => exact Course.keeps_throw _
    | ok packet =>
      cases packet with
      | none => exact Course.keeps_pure _
      | some packet =>
        refine (onPacket_keeps writer_keeps flush_keeps ?_ _ conn packet).bind fun flow => ?_
        · rintro _ rfl
          exact Or.inr rfl
        · cases flow with
          | again conn => exact Course.keeps_pure _
          | done _ => exact Course.keeps_pure _
  · rintro _ rfl
    exact ⟨_, Or.inl rfl, rfl⟩

/-! ## Past the deadline -/

/-- An operation that is answered in time, and so is what it returns. -/
theorem call_eq_ok {α : Type} {move : Socket → Nat → α × Socket} (hmove : Moves move) {s t : Socket} {a : α}
    (h : Socket.call move s = .ok a t) : ∃ tick, s.ticks = tick :: t.ticks ∧ tick.after < s.deadline := by
  cases hticks : s.ticks with
  | nil =>
    unfold Socket.call at h
    rw [hticks] at h
    cases h
  | cons tick ticks =>
    have hcases := call_cases hmove hticks
    rw [h] at hcases
    cases hcases with
    | done _ _ hu hafter => exact ⟨tick, by rw [hu.ticks], hafter⟩

section
variable {s : Socket} {tick : Tick} {ticks : List Tick} (hticks : s.ticks = tick :: ticks) (hlate : s.deadline ≤ tick.before)
include hticks hlate

theorem call_late {α : Type} (move : Socket → Nat → α × Socket) :
    Socket.call move s = .err lifetimeExceeded { s with ticks } := by
  unfold Socket.call
  rw [hticks]
  simp only
  rw [remaining_of_le hlate]

theorem readExact_late {buf : Bytes} (hbuf : buf ≠ []) :
    Socket.reader.readExact buf s = .err lifetimeExceeded { s with ticks } := by
  have hread : Socket.read buf.length s = .err lifetimeExceeded { s with ticks } := call_late hticks hlate _
  have hstep : readExactStep Socket.read ([], buf) s = .err lifetimeExceeded { s with ticks } := by
    rw [readExactStep, if_neg (by simpa using hbuf), Action.bind_apply, Action.try', hread]
    rfl
  show Action.loop (readExactStep Socket.read) (Socket.fuel s) ([], buf) s = _
  rw [Socket.fuel, Action.loop, Action.bind_err hstep]

theorem writeAll_late {buf : Bytes} (hbuf : buf ≠ []) :
    Socket.writer.writeAll buf s = .err lifetimeExceeded { s with ticks } := by
  have hwrite : Socket.write buf s = .err lifetimeExceeded { s with ticks } := call_late hticks hlate _
  have hstep : writeAllStep Socket.write buf s = .err lifetimeExceeded { s with ticks } := by
    rw [writeAllStep, if_neg (by simpa using hbuf), Action.bind_apply, Action.try', hwrite]
    rfl
  show Action.loop (writeAllStep Socket.write) (Socket.fuel s) buf s = _
  rw [Socket.fuel, Action.loop, Action.bind_err hstep]

theorem connection_late {Key : Type} (moments : Nat → Moment Key) :
    handleConnectionUntil moments s = .err lifetimeExceeded.text { s with ticks } := by
  have hpacket : readPacketInto Socket.reader [] s = .err lifetimeExceeded { s with ticks } := by
    rw [readPacketInto, Action.bind_apply, Action.try', readExact_late hticks hlate (by simp)]
    rfl
  have hturn : turn Socket.reader Socket.writer moments ({}, [], 0) s = .err lifetimeExceeded.text { s with ticks } := by
    rw [turn, Action.bind_apply, Action.try', hpacket]
    rfl
  rw [handleConnectionUntil, Socket.fuel, Action.loop, Action.bind_err hturn]

end

/-! ## One deadline -/

/-- The clock does not go back. -/
def Socket.NonDecreasing (s : Socket) : Prop := (s.ticks.flatMap (Tick.readings s.deadline)).Pairwise (· ≤ ·)

theorem Tick.before_mem (deadline : Nat) (tick : Tick) : tick.before ∈ tick.readings deadline := by
  unfold Tick.readings
  split <;> simp

/-- After a reading that is not before the deadline, no reading is. -/
theorem Socket.NonDecreasing.late {s t : Socket} {used : List Tick} (hclock : s.NonDecreasing) (hspends : Spends s t used)
    (hlate : ¬ Timely s.deadline used) {tick : Tick} (htick : tick ∈ t.ticks) : t.deadline ≤ tick.before := by
  unfold Timely at hlate
  push Not at hlate
  obtain ⟨first, hfirst, now, hnow, hpast⟩ := hlate
  unfold Socket.NonDecreasing at hclock
  rw [hspends.ticks, List.flatMap_append, List.pairwise_append] at hclock
  rw [hspends.deadline]
  refine Nat.le_trans hpast (hclock.2.2 now ?_ tick.before ?_)
  · exact List.mem_flatMap.2 ⟨first, hfirst, hnow⟩
  · exact List.mem_flatMap.2 ⟨tick, htick, tick.before_mem _⟩

/-- The call of a tick: when it was made, and how long it could last. -/
theorem Tick.call?_eq_some {deadline : Nat} {tick : Tick} {c : Call} (h : tick.call? deadline = some c) :
    c.clock = tick.before ∧ c.clock < deadline ∧ c.timeout = deadline - c.clock := by
  unfold Tick.call? at h
  split at h
  case isTrue hmade => cases h; exact ⟨rfl, hmade.1, rfl⟩
  case isFalse => cases h

/-- Every operation fails at the deadline, on a socket that has still the next tick to use, and
nothing else about the socket changes. -/
structure Fails {Key : Type} (moments : Nat → Moment Key) (s t : Socket) : Prop where
  read : ∀ length, Socket.read length s = .err lifetimeExceeded t
  write : ∀ buf, Socket.write buf s = .err lifetimeExceeded t
  flush : Socket.flush s = .err lifetimeExceeded t
  readExact : ∀ buf, buf ≠ [] → Socket.reader.readExact buf s = .err lifetimeExceeded t
  writeAll : ∀ buf, buf ≠ [] → Socket.writer.writeAll buf s = .err lifetimeExceeded t
  connection : handleConnectionUntil moments s = .err lifetimeExceeded.text t

structure OneDeadline {Key : Type} (moments : Nat → Moment Key) (s : Socket) : Prop where
  /-- Every reading is before the deadline; or the last operation, and no other, has read the clock
  too late, and that is the error. -/
  connection : timely.Kept LifetimeError s (handleConnectionUntil moments s)
  readExact : ∀ buf, timely.Kept (· = lifetimeExceeded) s (Socket.reader.readExact buf s)
  writeAll : ∀ buf, timely.Kept (· = lifetimeExceeded) s (Socket.writer.writeAll buf s)
  /-- The loops end; that of the connection, with an OpenSSL that does what it documents. -/
  ends : (∀ buf, Socket.reader.readExact buf s ≠ .panic) ∧ (∀ buf, Socket.writer.writeAll buf s ≠ .panic) ∧
    ((∀ k, (moments k).env.ssl.Documented) → handleConnectionUntil moments s ≠ .panic)
  /-- Every call is made before the deadline, with the time left as its timeout; if it ends within
  its timeout, then by the deadline. -/
  calls : ∀ t used, Spends s t used → ∀ c ∈ t.calls, c ∈ s.calls ∨ ∃ tick ∈ used, c.clock = tick.before ∧
    c.clock < s.deadline ∧ c.timeout = s.deadline - c.clock ∧ (tick.after ≤ c.clock + c.timeout → tick.after ≤ s.deadline)
  /-- What is returned after the deadline is an error. -/
  read : ∀ length bs t, Socket.read length s = .ok bs t → ∃ tick, s.ticks = tick :: t.ticks ∧ tick.after < s.deadline
  write : ∀ buf n t, Socket.write buf s = .ok n t → ∃ tick, s.ticks = tick :: t.ticks ∧ tick.after < s.deadline
  flush : ∀ t, Socket.flush s = .ok () t → ∃ tick, s.ticks = tick :: t.ticks ∧ tick.after < s.deadline
  /-- After the first reading that is not before the deadline, every operation fails without a call. -/
  late : ∀ t used, Spends s t used → ¬ Timely s.deadline used →
    ∀ tick ticks, t.ticks = tick :: ticks → Fails moments t { t with ticks }

/-- **Fragments share one deadline.** For every clock that does not go back, and however the calls on
the socket are answered. -/
theorem one_deadline {Key : Type} (moments : Nat → Moment Key) {s : Socket} (hclock : s.NonDecreasing) :
    OneDeadline moments s where
  connection := connection_keeps moments s
  readExact buf := reader_keeps buf s
  writeAll buf := writer_keeps buf s
  ends := ⟨fun buf => (Socket.reader_feeds buf s trivial).ne_panic, fun buf => (Socket.writer_takes.writeAll buf s trivial).ne_panic,
    fun hssl => (connection_ok hssl s).ne_panic⟩
  calls := by
    intro t used hspends c hc
    rw [hspends.calls, List.mem_append, List.mem_filterMap] at hc
    refine hc.imp_right ?_
    rintro ⟨tick, htick, hcall⟩
    obtain ⟨hclock, hbefore, htimeout⟩ := Tick.call?_eq_some hcall
    exact ⟨tick, htick, hclock, hbefore, htimeout, by omega⟩
  read length bs t h := call_eq_ok (fun _ _ => ⟨rfl, rfl, rfl⟩) h
  write buf n t h := call_eq_ok (fun _ _ => ⟨rfl, rfl, rfl⟩) h
  flush t h := call_eq_ok (fun _ _ => ⟨rfl, rfl, rfl⟩) h
  late := by
    intro t used hspends hlate tick ticks hticks
    have htick : t.deadline ≤ tick.before := hclock.late hspends hlate (by rw [hticks]; exact List.mem_cons_self ..)
    exact ⟨fun _ => call_late hticks htick _, fun _ => call_late hticks htick _, call_late hticks htick _,
      fun _ => readExact_late hticks htick, fun _ => writeAll_late hticks htick, connection_late hticks htick moments⟩

/-- One byte at a time, and the second call lasts beyond the deadline. -/
def exampleFragmented : Socket where
  deadline := 5
  ticks := [⟨1, .ok (), .ok 1, 2⟩, ⟨3, .ok (), .ok 1, 6⟩, ⟨7, .ok (), .ok 1, 8⟩]
  input := [0, 0, 0, 1, 81]

theorem one_deadline_fragmented : OneDeadline (fun _ => ⟨some exampleConfig, exampleEnv⟩) exampleFragmented :=
  one_deadline _ (by unfold Socket.NonDecreasing; decide)

end DkimLite
