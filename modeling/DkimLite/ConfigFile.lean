import DkimLite.Rust.Net
import DkimLite.Sign

/-!
# Reading the configuration file (`src/config.rs:29-124, 145-164`)

| here | there |
| --- | --- |
| `KeyFormat`, `Files` | what OpenSSL makes of a PEM text, and what the file system answers |
| `validateKey` | `validate_key` (`config.rs:101-124`) |
| `SocketAddr.fromStr`, `SocketAddr.isLoopback` | `addr.parse()` and `ip.is_loopback()` (`:153-158`) |
| `parseListen` | `parse_listen` (`:145-164`) |
| `Settings` | the variables `seen`, `domain`, .. `require_fips` (`:33-38`) |
| `setting`, `readLine`, `readLines` | the `match name` (`:57-76`), one line (`:41-77`) and the loop |
| `finishConfig`, `loadInput`, `load` | the checks after the loop (`:80-98`), `load` on the text of the file, and `load` (`:30-98`) |

`size() * 8` is 32-bit arithmetic that wraps, as in the release build.
-/

namespace DkimLite
open Rust Text

/-! ## The world outside -/

/-- `PKey::private_key_from_pem`, and `rsa()?.size()`: nothing for a key that is not RSA.
`modulusBits` is the length of the modulus itself, which the code does not look at. -/
structure KeyFormat (Key : Type) where
  privateKeyFromPem : Bytes → Except String Key
  rsaSize : Key → Option UInt32
  modulusBits : Key → Nat

/-- `RSA_size` is the length of the modulus in bytes, rounded up; a modulus is a BIGNUM, and
OpenSSL refuses to make one of 2^29 bits. -/
structure KeyFormat.Documented {Key : Type} (keys : KeyFormat Key) : Prop where
  size : ∀ key size, keys.rsaSize key = some size → size.toNat = (keys.modulusBits key + 7) / 8
  bits : ∀ key size, keys.rsaSize key = some size → keys.modulusBits key < 2 ^ 29

/-- An RSA signature is as long as the key. -/
def KeyFormat.Signs {Key : Type} (keys : KeyFormat Key) (ssl : OpenSsl Key) : Prop :=
  ∀ key size data sig, keys.rsaSize key = some size → ssl.signToVec key data = .ok sig → sig.length = size.toNat

/-- `fs::read_to_string`, `fs::read` and `Path::display`, with errors as the text they print. -/
structure Files where
  readToString : Bytes → Except String (List Char)
  read : Bytes → Except String Bytes
  display : Bytes → String

/-- `.ok_or_else(..)` -/
def okOr {α : Type} (e : String) : Option α → Except String α
  | some a => .ok a
  | none => .error e

theorem okOr_eq_ok {α : Type} {e : String} {o : Option α} {a : α} : okOr e o = .ok a ↔ o = some a := by
  cases o <;> simp [okOr]

theorem mapError_eq_ok {α : Type} {f : String → String} {x : Except String α} {a : α} :
    x.mapError f = .ok a ↔ x = .ok a := by
  cases x <;> simp [Except.mapError]

theorem bind_eq_ok {α β : Type} {x : Except String α} {f : α → Except String β} {b : β} :
    (x >>= f) = .ok b ↔ ∃ a, x = .ok a ∧ f a = .ok b := by
  cases x <;> simp [bind, Except.bind]

section
variable {Key : Type}

/-! ## The key -/

def selfTest : Bytes := ascii "dkim-lite startup self-test"

def validateKey (ssl : OpenSsl Key) (keys : KeyFormat Key) (key : Key) : Except String Unit := do
  let size ← okOr "private key must be RSA" (keys.rsaSize key)
  if size * 8 < 2048 then throw ("RSA key is " ++ toString (size * 8) ++ " bits; at least 2048 required")
  else if size * 8 > 4096 then throw ("RSA key is " ++ toString (size * 8) ++ " bits; at most 4096 supported")
  else do
    (ssl.signerNew key).mapError ("RSA-SHA256 is unavailable from system OpenSSL: " ++ ·)
    let _ ← (do ssl.signerUpdate key [] selfTest; ssl.signToVec key selfTest).mapError
      ("RSA-SHA256 startup self-test failed: " ++ ·)
    return ()

/-! ## The listener -/

def SocketAddr.fromStr (s : Bytes) : Option SocketAddr :=
  match readSocketAddrV4 s with
  | some ((ip, port), rest) =>
    if rest.isEmpty then some (.v4 (BitVec.ofNat 32 ip) (UInt16.ofNat port)) else none
  | none =>
    match readSocketAddrV6 s with
    | some ((ip, scopeId, port), rest) =>
      if rest.isEmpty then some (.v6 (BitVec.ofNat 128 ip) (UInt16.ofNat port) 0 (UInt32.ofNat scopeId)) else none
    | none => none

/-- 127.0.0.0/8 and ::1 -/
def SocketAddr.isLoopback : SocketAddr → Bool
  | .v4 ip _ => ip.toNat / 2 ^ 24 == 127
  | .v6 ip _ _ _ => ip == 1

def parseListen (value : List Char) : Except String ListenAddr :=
  match "unix:".toList.isPrefixOf? value with
  | some path =>
    if path.head? ≠ some '/' ∨ NUL ∈ utf8 path then .error "unix listen path must be absolute"
    else .ok (.unix (utf8 path))
  | none =>
    match "tcp:".toList.isPrefixOf? value with
    | some addr => do
      let addr ← okOr ("invalid TCP listen address: " ++ String.ofList addr) (SocketAddr.fromStr (utf8 addr))
      if addr.isLoopback then return .tcp addr else throw "TCP listener must use a loopback address"
    | none => .error "listen must start with unix: or tcp:"

/-! ## The loop over the lines -/

structure Settings where
  seen : List (List Char) := []
  domain : Option DnsName := none
  selector : Option DnsName := none
  privateKey : Option (List Char) := none
  listen : Option ListenAddr := none
  requireFips : Bool := true

/-- `line N: ` -/
def atLine (index : Nat) (what : String) : String := "line " ++ toString (index + 1) ++ ": " ++ what

def setting (s : Settings) (index : Nat) (name value : List Char) : Except String Settings :=
  if name = "domain".toList then do
    let domain ← validateDnsName "domain" value
    return { s with domain := some domain }
  else if name = "selector".toList then do
    let selector ← validateDnsName "selector" value
    return { s with selector := some selector }
  else if name = "private_key".toList then return { s with privateKey := some value }
  else if name = "listen".toList then do
    let listen ← parseListen value
    return { s with listen := some listen }
  else if name = "require_fips".toList then
    if value = "true".toList then return { s with requireFips := true }
    else if value = "false".toList then return { s with requireFips := false }
    else throw (atLine index "require_fips must be true or false")
  else throw (atLine index ("unknown setting " ++ String.ofList name))

def readLine (s : Settings) (index : Nat) (raw : List Char) : Except String Settings :=
  let line := trim raw
  if line.isEmpty || line.head? == some '#' then return s
  else do
    let (name, value) ← okOr (atLine index "expected name=value") (splitOnce '=' line)
    let name := trim name
    let value := trim value
    if value.isEmpty then throw (atLine index ("empty value for " ++ String.ofList name))
    if s.seen.contains name then throw (atLine index ("duplicate setting " ++ String.ofList name))
    setting { s with seen := name :: s.seen } index name value

def readLines : Settings → Nat → List (List Char) → Except String Settings
  | s, _, [] => return s
  | s, index, raw :: rest => do
    let s ← readLine s index raw
    readLines s (index + 1) rest

/-! ## `load` -/

variable (files : Files) (ssl : OpenSsl Key) (keys : KeyFormat Key)

def finishConfig (s : Settings) : Except String (RuntimeConfig Key) := do
  let domain ← okOr "missing domain" s.domain
  let selector ← okOr "missing selector" s.selector
  let privateKey ← okOr "missing private_key" s.privateKey
  if privateKey.head? ≠ some '/' then throw "private_key must be an absolute path"
  let listen ← okOr "missing listen" s.listen
  let keyBytes ← (files.read (utf8 privateKey)).mapError fun e =>
    "cannot read private key " ++ String.ofList privateKey ++ ": " ++ e
  let key ← (keys.privateKeyFromPem keyBytes).mapError ("cannot parse unencrypted PEM private key: " ++ ·)
  validateKey ssl keys key
  return { domain, selector, privateKey := utf8 privateKey, listen, requireFips := s.requireFips, key }

def loadInput (input : List Char) : Except String (RuntimeConfig Key) := do
  let s ← readLines {} 0 (lines input)
  finishConfig files ssl keys s

def load (path : Bytes) : Except String (RuntimeConfig Key) := do
  let input ← (files.readToString path).mapError fun e => "cannot read " ++ files.display path ++ ": " ++ e
  loadInput files ssl keys input

end

end DkimLite
