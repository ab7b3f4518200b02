import DkimLite.Milter

/-!
# The connection as a stream (`src/milter.rs:18, 143-188, 381-401, 544-561`)

| here | there |
| --- | --- |
| `Socket` | a `DeadlineConnection` (`milter.rs:143-146`) and the peer at its other end |
| `remaining` | `remaining` (`:149-159`) |
| `Socket.call`, `Socket.read`, `Socket.write`, `Socket.flush` | `read` (`:163-168`), `write` (`:172-177`) and `flush` (`:179-184`), and what they share |
| `readPacketInto` | `read_packet_into` (`:544-561`) |
| `turn`, `handleConnectionUntil` | the loop of `handle_connection_until` (`:388-470`) and the function |

The peer and the operating system are the `ticks` of a `Socket`, one for each call: what the clock
shows before and after it, whether the timeout could be set, and how many bytes the call may
move, or its error. So every fragmentation of the input, every short write and every
interruption is a list of ticks. When they are used up the call blocks (`pending`).

`calls` records the calls made: the clock before each and the timeout it was given.
-/

namespace DkimLite
open Rust Text

def maxPacket : Nat := 1024 * 1024

/-- What one call meets; times are instants of one monotonic clock. -/
structure Tick where
  before : Nat
  setTimeout : Except IoError Unit
  answer : Except IoError Nat
  after : Nat

structure Call where
  clock : Nat
  timeout : Nat
deriving DecidableEq

structure Socket where
  deadline : Nat
  ticks : List Tick
  input : Bytes
  output : Bytes := []
  calls : List Call := []

/-- `checked_duration_since`, where nothing left is an error too. -/
def remaining (deadline now : Nat) : Except IoError Nat :=
  if now < deadline then .ok (deadline - now) else .error ⟨.timedOut, "milter connection lifetime exceeded"⟩

namespace Socket

/-- A call within the deadline: `move` is what it does when it may move `n` bytes. -/
def call {α : Type} (move : Socket → Nat → α × Socket) : Action IoError Socket α := fun s =>
  match s.ticks with
  | [] => .pending s
  | tick :: ticks =>
    let s := { s with ticks }
    match remaining s.deadline tick.before with
    | .error e => .err e s
    | .ok timeout =>
      match tick.setTimeout with
      | .error e => .err e s
      | .ok () =>
        let s := { s with calls := s.calls ++ [⟨tick.before, timeout⟩] }
        let (result, s) : Except IoError α × Socket := match tick.answer with
          | .ok n => (.ok (move s n).1, (move s n).2)
          | .error e => (.error e, s)
        -- too late is an error, whatever the call returned
        match remaining s.deadline tick.after with
        | .error e => .err e s
        | .ok _ =>
          match result with
          | .ok a => .ok a s
          | .error e => .err e s

def read (length : Nat) : Action IoError Socket Bytes :=
  call fun s n => (s.input.take (min n length), { s with input := s.input.drop (min n length) })

def write (buf : Bytes) : Action IoError Socket Nat :=
  call fun s n => (min n buf.length, { s with output := s.output ++ buf.take (min n buf.length) })

def flush : Action IoError Socket Unit := call fun s _ => ((), s)

/-- More iterations than calls are answered. -/
def fuel (s : Socket) : Nat := s.ticks.length + 1

def reader : Reader Socket where
  readExact := Rust.readExact read fuel

def writer : Writer Socket where
  writeAll := Rust.writeAll write fuel
  flush := flush

end Socket

/-! ## Packets -/

section
variable {Key σ : Type}

/-- `Vec::resize` with zeros -/
def resize (xs : Bytes) (length : Nat) : Bytes := xs.take length ++ List.replicate (length - xs.length) 0

/-- The buffer with a packet in it, or `none` at the end of the stream. -/
def readPacketInto (stream : Reader σ) (packet : Bytes) : Action IoError σ (Option Bytes) := do
  match ← (stream.readExact [0, 0, 0, 0]).try' with
  | .error e => if e.kind = .unexpectedEof then return none else Action.throw e
  | .ok length => do
    let length ← Action.lift (⟨.other, ·⟩) (fromBeBytes length)
    if length.toNat = 0 ∨ maxPacket < length.toNat then
      Action.throw ⟨.invalidData, "invalid milter packet length"⟩
    else do
      let packet ← stream.readExact (resize packet length.toNat)
      return some packet

/-- One turn: the variables of the loop, the packet buffer and the number of packets read, which
picks the moment of the next one. -/
def turn (input : Reader σ) (output : Writer σ) (moments : Nat → Moment Key) :
    Conn Key × Bytes × Nat → Action String σ (Flow (Conn Key × Bytes × Nat) Unit)
  | (conn, packet, count) => do
    match ← (readPacketInto input packet).try' with
    | .error e => Action.throw e.text
    | .ok none => return .done ()
    | .ok (some packet) => do
      match ← onPacket output (moments count) conn packet with
      | .again conn => return .again (conn, packet, count + 1)
      | .done () => return .done ()

def handleConnectionUntil (moments : Nat → Moment Key) : Action String Socket Unit := fun s =>
  Action.loop (turn Socket.reader Socket.writer moments) s.fuel ({}, [], 0) s

end

end DkimLite
