import DkimLite.Rust.Stream
import DkimLite.Sign

/-!
# The milter connection (`src/milter.rs:16-64, 381-542, 576-622`)

| here | there |
| --- | --- |
| `MessageState`, `begin`, `fail` | the struct and its methods (`milter.rs:41-64`) |
| `receiveHeader` | `receive_header` (`:472-499`) |
| `finishMessage` | `finish_message` (`:501-542`) |
| `noReplyFlag`, `writeContinueIfNeeded`, `writeStatus`, `writePacket` | `:576-622` |
| `Command.of` | the patterns of the `match command` (`:408-467`) |
| `negotiate`, `openMessage`, `receiveBody` | what the arms `O`, `L` and `B` compute before they reply |
| `onCommand`, `onPacket` | one turn of the loop of `handle_connection_until`, once a packet is read (`:403-468`) |
| `onPackets` | the loop, given the packets that are read |

`onPacket` works on any writer, as the source does. What changes from one packet to the next
without this connection doing anything is its argument `Moment`: the configuration found
behind the lock (`none` if the lock is poisoned), the clock and OpenSSL.
-/

namespace DkimLite
open Rust Text

def maxHeaders : Nat := 1000
def maxHeaderBytes : Nat := 1024 * 1024

def actionAddHeader : UInt32 := 0x01
def actionChangeHeader : UInt32 := 0x10
def protocolNrHeader : UInt32 := 0x80
def protocolNrConnect : UInt32 := 0x1000
def protocolNrHelo : UInt32 := 0x2000
def protocolNrMail : UInt32 := 0x4000
def protocolNrRcpt : UInt32 := 0x8000
def protocolNrData : UInt32 := 0x10000
def protocolNrUnknown : UInt32 := 0x20000
def protocolNrEoh : UInt32 := 0x40000
def protocolNrBody : UInt32 := 0x80000
def supportedNoReply : UInt32 :=
  protocolNrHeader ||| protocolNrConnect ||| protocolNrHelo ||| protocolNrMail ||| protocolNrRcpt |||
    protocolNrData ||| protocolNrUnknown ||| protocolNrEoh ||| protocolNrBody

/-- A byte literal. -/
def byte (c : Char) : UInt8 := UInt8.ofNat c.toNat

/-! ## The state of a message -/

structure MessageState (Key : Type) where
  config : Option (RuntimeConfig Key) := none
  headers : List Header := []
  headerBytes : Nat := 0
  body : BodyCanonicalizer := BodyCanonicalizer.default
  error : Option String := none

section
variable {Key σ : Type}

namespace MessageState

def default : MessageState Key := {}

def begin (config : RuntimeConfig Key) : MessageState Key := { config := some config }

/-- The first reason stays. -/
def fail (state : MessageState Key) (reason : String) : MessageState Key :=
  if state.error.isNone then { state with error := some reason } else state

end MessageState

def receiveHeader (state : MessageState Key) (payload : Bytes) : Exec (MessageState Key) :=
  if state.error.isSome then return state
  else
    match payload.findIdx? (· == NUL) with
    | none => return state.fail "malformed milter header packet"
    | some separator => do
      let name ← sliceTo payload separator
      let valueWithNul ← sliceFrom payload (separator + 1)
      -- `strip_suffix(&[0])`
      if valueWithNul.getLast? ≠ some NUL then return state.fail "malformed milter header value"
      else
        let value := valueWithNul.dropLast
        if value.contains NUL then return state.fail "malformed milter header value"
        else
          let state := { state with headerBytes := saturatingAdd state.headerBytes (name.length + value.length) }
          if maxHeaders ≤ state.headers.length ∨ maxHeaderBytes < state.headerBytes then
            return state.fail "message header limit exceeded"
          else
            match Header.new name value with
            | .ok header => return { state with headers := state.headers ++ [header] }
            | .error error => return state.fail error

/-! ## Replies -/

def noReplyFlag (command : UInt8) : UInt32 :=
  if command = byte 'C' then protocolNrConnect
  else if command = byte 'H' then protocolNrHelo
  else if command = byte 'M' then protocolNrMail
  else if command = byte 'R' then protocolNrRcpt
  else if command = byte 'T' then protocolNrData
  else if command = byte 'U' then protocolNrUnknown
  else if command = byte 'L' then protocolNrHeader
  else if command = byte 'N' then protocolNrEoh
  else if command = byte 'B' then protocolNrBody
  else 0

def cannotWrite (e : IoError) : String := "cannot write milter response: " ++ e.text

def writeStatus (stream : Writer σ) (status : UInt8) : Action String σ Unit :=
  Action.mapErr cannotWrite do
    stream.writeAll [0, 0, 0, 1, status]
    stream.flush

def writeContinueIfNeeded (stream : Writer σ) (protocol : UInt32) (command : UInt8) : Action String σ Unit :=
  if protocol &&& noReplyFlag command = 0 then writeStatus stream (byte 'c') else return ()

def writePacket (stream : Writer σ) (command : UInt8) (payload : Bytes) : Action String σ Unit :=
  let length := 1 + payload.length
  if 2 ^ 32 ≤ length then Action.throw "milter response is too large"
  else
    Action.mapErr cannotWrite do
      stream.writeAll (toBeBytes (UInt32.ofNat length) ++ command :: payload)
      stream.flush

/-! ## The end of a message -/

/-- The header the MTA is asked to add, as a NUL-terminated name and value. -/
def signatureStrings (value : Bytes) : Bytes := dkimSignatureName ++ [NUL] ++ value ++ [NUL]

/-- The last two reasons to leave a message unsigned (`:506-511`). -/
def closeMessage (state : MessageState Key) (actions : UInt32) : MessageState Key :=
  let state := if state.config.isNone then state.fail "end of message received before message start" else state
  if state.error.isNone ∧ actions &&& (actionAddHeader ||| actionChangeHeader) = 0 then
    state.fail "MTA did not grant permission to add headers"
  else state

/-- The reply to a message that has not failed (`:513-536`). -/
def signMessage (stream : Writer σ) (env : Env Key) (state : MessageState Key) (actions : UInt32) :
    Action String σ (MessageState Key) := do
  let body := state.body.finish env.ssl.sha256
  match state.config with
  | none => Action.throw "message has no configuration"
  | some config =>
    match sign env config state.headers body with
    | .ok signed =>
      if actions &&& actionChangeHeader ≠ 0 then
        writePacket stream (byte 'i') (toBeBytes 0 ++ signatureStrings signed.value)
      else
        writePacket stream (byte 'h') (signatureStrings signed.value)
      return state
    | .err error => return state.fail error
    | .panic => fun _ => .panic

/-- Returns the line written to the log, if any. -/
def finishMessage (stream : Writer σ) (env : Env Key) (state : MessageState Key) (actions : UInt32) :
    Action String σ (Option String) := do
  let state := closeMessage state actions
  let state ← if state.error.isNone then signMessage stream env state actions else pure state
  let log := state.error.map fun error => "dkim-lite: accepting message unsigned: " ++ error
  writeStatus stream (byte 'a')
  return log

/-! ## One packet -/

/-- The patterns the command byte is matched with. -/
inductive Command where
  | O | M | L | B | E | A | D
  /-- `Q` or `K` -/
  | close
  /-- `C`, `H`, `R`, `T`, `N` or `U` -/
  | plain
  | unsupported
deriving DecidableEq

def Command.of (b : UInt8) : Command :=
  if b = byte 'O' then .O
  else if b = byte 'M' then .M
  else if b = byte 'L' then .L
  else if b = byte 'B' then .B
  else if b = byte 'E' then .E
  else if b = byte 'A' then .A
  else if b = byte 'Q' ∨ b = byte 'K' then .close
  else if b = byte 'D' then .D
  else if b = byte 'C' ∨ b = byte 'H' ∨ b = byte 'R' ∨ b = byte 'T' ∨ b = byte 'N' ∨ b = byte 'U' then .plain
  else .unsupported

/-- What a packet meets outside the connection. -/
structure Moment (Key : Type) where
  active : Option (RuntimeConfig Key)
  env : Env Key

/-- The variables of the loop. -/
structure Conn (Key : Type) where
  state : MessageState Key := {}
  actions : UInt32 := 0
  protocol : UInt32 := 0

/-- `format!("{:02x}")` -/
def hexByte (b : UInt8) : String :=
  let digits := Nat.toDigits 16 b.toNat
  String.ofList (if digits.length < 2 then '0' :: digits else digits)

/-- `active.read().map_err(...)?.clone()` -/
def activeOf (moment : Moment Key) : Exec (RuntimeConfig Key) :=
  match moment.active with
  | some config => .ok config
  | none => .err "configuration lock poisoned"

/-- The `O` arm up to its reply: version, actions and protocol (`:410-423`). -/
def negotiate (payload : Bytes) : Exec (UInt32 × UInt32 × UInt32) :=
  if payload.length ≠ 12 then .err "invalid option negotiation packet"
  else do
    let version ← slice payload 0 4 >>= fromBeBytes
    let version := min version 6
    let offered ← slice payload 4 8 >>= fromBeBytes
    let actions := offered &&& (actionAddHeader ||| actionChangeHeader)
    let offeredProtocol ← slice payload 8 12 >>= fromBeBytes
    let protocol := if 6 ≤ version then offeredProtocol &&& supportedNoReply else 0
    return (version, actions, protocol)

/-- The implicit start in the `L` arm (`:438-444`). -/
def openMessage (moment : Moment Key) (state : MessageState Key) : Exec (MessageState Key) :=
  if state.config.isNone then do
    let config ← activeOf moment
    return .begin config
  else return state

/-- The `B` arm up to its reply (`:449-453`). -/
def receiveBody (state : MessageState Key) (payload : Bytes) : Exec (MessageState Key) :=
  if state.config.isNone then return state.fail "body received before message start"
  else if state.error.isNone then do
    let body ← state.body.update payload
    return { state with body }
  else return state

def onCommand (stream : Writer σ) (moment : Moment Key) (conn : Conn Key) (command : UInt8) (payload : Bytes) :
    Action String σ (Flow (Conn Key) Unit) :=
  match Command.of command with
  | .O => do
    let (version, actions, protocol) ← Action.lift id (negotiate payload)
    writePacket stream (byte 'O') (toBeBytes version ++ toBeBytes actions ++ toBeBytes protocol)
    return .again { conn with actions, protocol }
  | .M => do
    let config ← Action.lift id (activeOf moment)
    writeContinueIfNeeded stream conn.protocol (byte 'M')
    return .again { conn with state := .begin config }
  | .L => do
    let state ← Action.lift id (openMessage moment conn.state >>= fun state => receiveHeader state payload)
    writeContinueIfNeeded stream conn.protocol (byte 'L')
    return .again { conn with state }
  | .B => do
    let state ← Action.lift id (receiveBody conn.state payload)
    writeContinueIfNeeded stream conn.protocol (byte 'B')
    return .again { conn with state }
  | .E => do
    let _ ← finishMessage stream moment.env conn.state conn.actions
    return .again { conn with state := .default }
  | .A => return .again { conn with state := .default }
  | .close => return .done ()
  | .D => return .again conn
  | .plain => do
    writeContinueIfNeeded stream conn.protocol command
    return .again conn
  | .unsupported => Action.throw ("unsupported milter command 0x" ++ hexByte command)

def onPacket (stream : Writer σ) (moment : Moment Key) (conn : Conn Key) : Bytes → Action String σ (Flow (Conn Key) Unit)
  | [] => Action.throw "empty milter packet"
  | command :: payload => onCommand stream moment conn command payload

/-! ## One packet after another -/

/-- A packet read on a connection, and the moment it is processed at. -/
structure Event (Key : Type) where
  moment : Moment Key
  packet : Bytes

/-- The loop, given the packets it reads: `.again conn` is where it waits for the next one. -/
def onPackets (stream : Writer σ) : Conn Key → List (Event Key) → Action String σ (Flow (Conn Key) Unit)
  | conn, [] => return .again conn
  | conn, e :: es => do
    match ← onPacket stream e.moment conn e.packet with
    | .again conn => onPackets stream conn es
    | .done () => return .done ()

end

end DkimLite
