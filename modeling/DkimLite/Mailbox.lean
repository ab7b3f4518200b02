import DkimLite.Rust.Str
import DkimLite.Text.Lines

/-!
# `from_domain` and its sub-parsers (`src/dkim.rs:249-425`)

| here | there |
| --- | --- |
| `unfoldStep`, `unfoldValue` | the unfolding loop (`dkim.rs:250-269`) |
| `StripState`, `stripByte`, `stripComments` | the comment stripping loop (`:272-318`) |
| `AngleState`, `angleByte`, `angleScan` | the scan for `<` and `>` (`:323-340`) |
| `AtState`, `atByte`, `atScan` | the scan for `@` (`:353-365`) |
| `fromText`, `fromAddress`, `fromDomain` | the rest of the function, from the text on (`:320-351`) and from the address on (`:352-371`), and the whole |
| `atomByte`, `localPart`, `displayName` | `atom_byte` (`:380`), `local_part` (`:384`), `display_name` (`:408`) |

`comment_depth` is a `Nat`: it is at most the length of the value, and a slice has at most
`isize::MAX` bytes, so `checked_add(1)` never fails. Slices of the text go through
`splitAtByte`, which panics off a character boundary. The scan states of one loop are carried
into the next as in the source, where `quoted` and `escaped` are shared variables.
-/

namespace DkimLite
open Rust Text

def DQUOTE : UInt8 := 34
def LPAREN : UInt8 := 40
def RPAREN : UInt8 := 41
def COMMA : UInt8 := 44
def DOT : UInt8 := 46
def SEMICOLON : UInt8 := 59
def LANGLE : UInt8 := 60
def RANGLE : UInt8 := 62
def AT : UInt8 := 64
def BACKSLASH : UInt8 := 92

/-! ## Unfolding -/

/-- One iteration: `index` and `unfolded`. -/
def unfoldStep (value : Bytes) : Nat × Bytes → Exec (Flow (Nat × Bytes) (Option Bytes))
  | (i, unfolded) =>
    if i < value.length then do
      let byte ← index value i
      if byte = CR then
        if value[i + 1]? ≠ some LF ∨ ¬ value[i + 2]?.any isWsp then return .done none
        else return .again (i + 2, unfolded)
      else if isAsciiControl byte && byte != TAB then return .done none
      else return .again (i + 1, unfolded ++ [byte])
    else return .done (some unfolded)

def unfoldValue (value : Bytes) : Exec (Option Bytes) :=
  whileLoop (unfoldStep value) (value.length + 1) (0, [])

/-! ## Comments -/

structure StripState where
  mailbox : Bytes
  quoted : Bool
  escaped : Bool
  commentDepth : Nat
deriving DecidableEq

/-- One byte; `none` is `return None`. -/
def stripByte (s : StripState) (byte : UInt8) : Exec (Option StripState) :=
  if s.escaped then
    let s := if s.commentDepth = 0 then { s with mailbox := s.mailbox ++ [byte] } else s
    return some { s with escaped := false }
  else if 0 < s.commentDepth then
    if byte = BACKSLASH then return some { s with escaped := true }
    else if byte = LPAREN then return some { s with commentDepth := s.commentDepth + 1 }
    else if byte = RPAREN then do
      let depth ← checkedSub s.commentDepth 1
      return some { s with commentDepth := depth }
    else return some s
  else if s.quoted then
    let s := { s with mailbox := s.mailbox ++ [byte] }
    if byte = BACKSLASH then return some { s with escaped := true }
    else if byte = DQUOTE then return some { s with quoted := false }
    else return some s
  else
    if byte = LPAREN then return some { s with commentDepth := 1, mailbox := s.mailbox ++ [SP] }
    else if byte = RPAREN then return none
    else if byte = DQUOTE then return some { s with quoted := true, mailbox := s.mailbox ++ [byte] }
    else return some { s with mailbox := s.mailbox ++ [byte] }

def stripComments : StripState → Bytes → Exec (Option StripState)
  | s, [] => return some s
  | s, b :: r => do
    let some s ← stripByte s b | return none
    stripComments s r

/-! ## Angle brackets -/

structure AngleState where
  escaped : Bool
  quoted : Bool
  start : Option Nat
  stop : Option Nat

/-- One byte at offset `i`; `none` is `return None`. -/
def angleByte (s : AngleState) (i : Nat) (byte : UInt8) : Option AngleState :=
  if s.escaped then some { s with escaped := false }
  else if s.quoted && byte == BACKSLASH then some { s with escaped := true }
  else if byte = DQUOTE then some { s with quoted := !s.quoted }
  else if !s.quoted then
    if byte = LANGLE ∧ s.start.isNone then some { s with start := some i }
    else if byte = RANGLE ∧ s.start.isSome ∧ s.stop.isNone then some { s with stop := some i }
    else if byte = LANGLE ∨ byte = RANGLE ∨ byte = COMMA ∨ byte = 58 ∨ byte = SEMICOLON then none
    else some s
  else some s

def angleScan : AngleState → Nat → Bytes → Option AngleState
  | s, _, [] => some s
  | s, i, b :: r =>
    match angleByte s i b with
    | none => none
    | some s => angleScan s (i + 1) r

/-! ## The at sign -/

structure AtState where
  escaped : Bool
  quoted : Bool
  separator : Option Nat

def atByte (s : AtState) (i : Nat) (byte : UInt8) : Option AtState :=
  if s.escaped then some { s with escaped := false }
  else if s.quoted && byte == BACKSLASH then some { s with escaped := true }
  else if byte = DQUOTE then some { s with quoted := !s.quoted }
  else if !s.quoted && byte == AT then
    -- `separator.replace(index).is_some()` rejects a second one
    if s.separator.isSome then none else some { s with separator := some i }
  else some s

def atScan : AtState → Nat → Bytes → Option AtState
  | s, _, [] => some s
  | s, i, b :: r =>
    match atByte s i b with
    | none => none
    | some s => atScan s (i + 1) r

/-! ## Local parts and display names -/

/-- `atom_byte`: a letter, a digit or a punctuation byte of RFC 5322 `atext`. -/
def atomByte (b : UInt8) : Bool :=
  isAsciiAlphanumeric b ||
    [33, 35, 36, 37, 38, 39, 42, 43, 45, 47, 61, 63, 94, 95, 96, 123, 124, 125, 126].contains b

/-- The loop over a quoted local part, after its opening quote (`:386-398`). -/
def localQuoted (len : Nat) : Nat → Bool → Bytes → Exec Bool
  | _, _, [] => return false
  | i, escaped, b :: r =>
    if isAsciiControl b && b != TAB then return false
    else if escaped then localQuoted len (i + 1) false r
    else if b = BACKSLASH then localQuoted len (i + 1) true r
    else if b = DQUOTE then do
      let last ← checkedSub len 1
      return i == last
    else localQuoted len (i + 1) false r

def localPart (value : Bytes) : Exec Bool :=
  if value.head? = some DQUOTE then localQuoted value.length 1 false (value.drop 1)
  else return !value.isEmpty && (value.splitOn DOT).all fun part => !part.isEmpty && part.all atomByte

/-- The loop of `display_name`, from its two flags. -/
def displayLoop : Bool → Bool → Bytes → Bool
  | quoted, escaped, [] => !quoted && !escaped
  | quoted, escaped, b :: r =>
    if escaped then
      if isAsciiControl b then false else displayLoop quoted false r
    else if quoted then
      if b = BACKSLASH then displayLoop quoted true r
      else if b = DQUOTE then displayLoop false escaped r
      else if isAsciiControl b && b != TAB then false
      else displayLoop quoted escaped r
    else if b = DQUOTE then displayLoop true escaped r
    else if !atomByte b && b != DOT && !isAsciiWhitespace b && isAscii b then false
    else displayLoop quoted escaped r

def displayName (value : Bytes) : Bool := displayLoop false false value

/-! ## `from_domain` -/

/-- A byte a domain may hold (`:372`). -/
def isDomainByte (b : UInt8) : Bool := isAsciiAlphanumeric b || b == 45 || b == DOT

/-- From the address on, with the scan flags as they stand. -/
def fromAddress (escaped quoted : Bool) (address : List Char) : Exec (Option Bytes) := do
  let some scan := atScan ⟨escaped, quoted, none⟩ 0 (utf8 address) | return none
  let some separator := scan.separator | return none
  let localText := trim (← strTo address separator)
  let domain := trimEndMatches '.' (trim (← strFrom address (separator + 1)))
  if !(← localPart (utf8 localText)) then return none
  if domain.isEmpty || !(utf8 domain).all isDomainByte then return none
  return some (lower (utf8 domain))

/-- From the trimmed text on (`:320-351`). -/
def fromText (escaped quoted : Bool) (text : List Char) : Exec (Option Bytes) := do
  let some scan := angleScan ⟨escaped, quoted, none, none⟩ 0 (utf8 text) | return none
  match scan.start, scan.stop with
  | some start, some stop =>
    if !displayName (← sliceTo (utf8 text) start) then return none
    if !(trim (← strFrom text (stop + 1))).isEmpty then return none
    fromAddress scan.escaped scan.quoted (trim (← strSlice text (start + 1) stop))
  | none, none => fromAddress scan.escaped scan.quoted text
  | _, _ => return none

def fromDomain (value : Bytes) : Exec (Option Bytes) := do
  let some unfolded ← unfoldValue value | return none
  let some s ← stripComments ⟨[], false, false, 0⟩ unfolded | return none
  if s.quoted || s.escaped || s.commentDepth != 0 then return none
  let some mailbox := fromUtf8 s.mailbox | return none
  fromText s.escaped s.quoted (trim mailbox)

end DkimLite
