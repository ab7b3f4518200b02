import DkimLite.Rust.Bytes

/-!
# Socket addresses as text (`SocketAddr::from_str` of the standard library)

The parser of `core::net`: `a.b.c.d:port` and `[v6]:port` or `[v6%scope]:port`. Every `read_*`
function is given what is left of the text and returns the value with the rest of it; one that
fails reads nothing (`read_atomically`). Addresses are numbers in network byte order.
-/

namespace Rust

/-- `char::to_digit`, of an ASCII byte -/
def toDigit (radix : Nat) (b : UInt8) : Option Nat :=
  let n := b.toNat
  let digit := if 48 ≤ n ∧ n ≤ 57 then some (n - 48)
    else if 97 ≤ n ∧ n ≤ 122 then some (n - 97 + 10)
    else if 65 ≤ n ∧ n ≤ 90 then some (n - 65 + 10)
    else none
  digit.filter (· < radix)

def readGivenChar (c : UInt8) : Bytes → Option Bytes
  | [] => none
  | b :: s => if b = c then some s else none

/-- The digits of a number: its value, their count and the rest. A value above `max` or more than
`maxDigits` digits make the number unreadable. -/
def readDigits (radix : Nat) (maxDigits : Option Nat) (max : Nat) : Nat → Nat → Bytes → Option (Nat × Nat × Bytes)
  | result, count, [] => some (result, count, [])
  | result, count, b :: s =>
    match toDigit radix b with
    | none => some (result, count, b :: s)
    | some digit =>
      if max < result * radix + digit then none
      else if maxDigits.any (· < count + 1) then none
      else readDigits radix maxDigits max (result * radix + digit) (count + 1) s

def readNumber (radix : Nat) (maxDigits : Option Nat) (allowZeroPrefix : Bool) (max : Nat) (s : Bytes) : Option (Nat × Bytes) :=
  match readDigits radix maxDigits max 0 0 s with
  | none => none
  | some (result, count, rest) =>
    if count = 0 then none
    else if !allowZeroPrefix && s.head? == some 48 && 1 < count then none
    else some (result, rest)

/-- The part after a separator; the first part has none before it. -/
def readSeparator {α : Type} (sep : UInt8) (first : Bool) (inner : Bytes → Option (α × Bytes)) (s : Bytes) :
    Option (α × Bytes) :=
  if first then inner s else (readGivenChar sep s).bind inner

def readIpv4Addr (s : Bytes) : Option (Nat × Bytes) := do
  let group := readNumber 10 (some 3) false 255
  let (a, s) ← readSeparator 46 true group s
  let (b, s) ← readSeparator 46 false group s
  let (c, s) ← readSeparator 46 false group s
  let (d, s) ← readSeparator 46 false group s
  return (((a * 256 + b) * 256 + c) * 256 + d, s)

/-- At most `limit` groups, the last two of them possibly as an IPv4 address (then the flag is set).
Its first argument counts the groups that may still be read. -/
def readGroups : (limit : Nat) → (first : Bool) → Bytes → List Nat × Bool × Bytes
  | 0, _, s => ([], false, s)
  | left + 1, first, s =>
    match if 0 < left then readSeparator 58 first readIpv4Addr s else none with
    | some (v4, s) => ([v4 / 65536, v4 % 65536], true, s)
    | none =>
      match readSeparator 58 first (readNumber 16 (some 4) true 65535) s with
      | some (group, s) =>
        let (groups, v4, s) := readGroups left false s
        (group :: groups, v4, s)
      | none => ([], false, s)

def readIpv6Addr (s : Bytes) : Option (Nat × Bytes) :=
  let value (groups : List Nat) := groups.foldl (fun acc group => acc * 65536 + group) 0
  let (head, headV4, s) := readGroups 8 true s
  if head.length = 8 then some (value head, s)
  else if headV4 then none
  else do
    -- the double colon stands for one group at least
    let s ← readGivenChar 58 s
    let s ← readGivenChar 58 s
    let (tail, _, s) := readGroups (8 - (head.length + 1)) true s
    return (value (head ++ List.replicate (8 - head.length - tail.length) 0 ++ tail), s)

def readPort (s : Bytes) : Option (Nat × Bytes) := do
  let s ← readGivenChar 58 s
  readNumber 10 none true 65535 s

def readScopeId (s : Bytes) : Option (Nat × Bytes) := do
  let s ← readGivenChar 37 s
  readNumber 10 none true 4294967295 s

def readSocketAddrV4 (s : Bytes) : Option ((Nat × Nat) × Bytes) := do
  let (ip, s) ← readIpv4Addr s
  let (port, s) ← readPort s
  return ((ip, port), s)

/-- Address, scope and port. -/
def readSocketAddrV6 (s : Bytes) : Option ((Nat × Nat × Nat) × Bytes) := do
  let s ← readGivenChar 91 s
  let (ip, s) ← readIpv6Addr s
  let (scopeId, s) := (readScopeId s).getD (0, s)
  let s ← readGivenChar 93 s
  let (port, s) ← readPort s
  return ((ip, scopeId, port), s)

end Rust
