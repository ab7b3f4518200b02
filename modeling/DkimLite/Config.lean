import DkimLite.Rust.Path
import DkimLite.Rust.Str
import DkimLite.Text.Lines

/-!
# The configuration record (`src/config.rs`)

| here | there |
| --- | --- |
| `ListenAddr`, `SocketAddr` | the enum (`config.rs:13-17`) and `std::net::SocketAddr` |
| `ListenAddr.Same` | `==`, as it is derived there: of a `PathBuf` the components are compared |
| `DnsName`, `validateDnsName` | a checked name, and `validate_dns_name` (`:126-143`) |
| `RuntimeConfig` | the struct (`:19-27`) |
| `checkFipsEnvironmentWith` | `check_fips_environment_with` (`:174-200`) |

A `DnsName` carries what `validate_dns_name` has checked; `validateDnsName_self` says that every
`DnsName` is an output of that function, so nothing is assumed beyond it.
-/

namespace DkimLite
open Rust Text

/-- ASCII bytes as text, for messages. -/
def asText (bs : Bytes) : String := String.ofList (bs.map asciiChar)

/-! ## Names -/

/-- One label: 1 to 63 letters, digits and hyphens, no hyphen at either end (`:130-137`). -/
def labelOk (label : Bytes) : Bool :=
  !(label.isEmpty || 63 < label.length || label.head? == some 45 || label.getLast? == some 45 ||
    !label.all fun b => isAsciiAlphanumeric b || b == 45)

def dnsNameOk (value : Bytes) : Bool :=
  !(value.isEmpty || 253 < value.length) && (value.splitOn 46).all labelOk

/-- A name that passed `validate_dns_name`: well formed and in lower case. -/
structure DnsName where
  bytes : Bytes
  ok : dnsNameOk bytes = true
  lowered : lower bytes = bytes
deriving DecidableEq

def validateDnsName (kind : String) (value : List Char) : Except String DnsName :=
  let value := toAsciiLowercase (trimEndMatches '.' value)
  if h : dnsNameOk (utf8 value) = true then .ok ⟨utf8 value, h, by rw [utf8_toAsciiLowercase, lower_idem]⟩
  else .error ("invalid " ++ kind ++ ": " ++ String.ofList value)

theorem validateDnsName_bytes {kind : String} {v : List Char} {n : DnsName} (h : validateDnsName kind v = .ok n) :
    n.bytes = lower (utf8 (trimEndMatches '.' v)) := by
  simp only [validateDnsName] at h
  split at h
  · cases h
    exact utf8_toAsciiLowercase _
  · cases h

/-- A byte a name may hold: a letter, a digit, a hyphen or a dot. -/
theorem DnsName.mem (n : DnsName) : ∀ b ∈ n.bytes, isAsciiAlphanumeric b = true ∨ b = 45 ∨ b = 46 := by
  intro b hb
  have hok := n.ok
  simp only [dnsNameOk, Bool.and_eq_true, List.all_eq_true] at hok
  have hsplit : [46].intercalate (n.bytes.splitOn 46) = n.bytes := List.intercalate_splitOn 46
  rw [← hsplit] at hb
  rcases mem_intercalate hb with rfl | ⟨l, hl, hbl⟩
  · exact Or.inr (Or.inr rfl)
  · have hlabel := hok.2 l hl
    simp only [labelOk, Bool.not_eq_true', Bool.or_eq_false_iff, Bool.not_eq_false', List.all_eq_true] at hlabel
    rcases Bool.or_eq_true_iff.1 (hlabel.2 b hbl) with h | h
    · exact Or.inl h
    · exact Or.inr (Or.inl (by simpa using h))

theorem DnsName.ascii (n : DnsName) : ∀ b ∈ n.bytes, b.toNat < 128 := by
  intro b hb
  rcases n.mem b hb with h | rfl | rfl
  · revert h
    exact forall_uint8 (P := fun b => isAsciiAlphanumeric b = true → b.toNat < 128) (by decide +kernel) b
  · decide
  · decide

/-- A checked name does not end in a dot. -/
theorem DnsName.no_trailing_dot (n : DnsName) : n.bytes.rdropWhile (· == 46) = n.bytes := by
  rcases List.eq_nil_or_concat n.bytes with h | ⟨l, b, h⟩
  · rw [h]; rfl
  · rw [List.concat_eq_append] at h
    rw [h]
    refine List.rdropWhile_concat_neg (· == 46) _ _ fun hb => ?_
    obtain rfl : b = 46 := by simpa using hb
    -- the last label would be empty
    have hok := n.ok
    rw [h, dnsNameOk, Bool.and_eq_true, List.all_eq_true] at hok
    have hlast : [] ∈ (l ++ [46]).splitOn 46 := by
      rw [List.splitOn, List.splitOnP_append_cons l [] (by simp)]
      simp
    exact absurd (hok.2 [] hlast) (by decide)

/-- **Every `DnsName` is an output of `validate_dns_name`.** -/
theorem validateDnsName_self (kind : String) (n : DnsName) :
    validateDnsName kind (n.bytes.map asciiChar) = .ok n := by
  have hutf8 : utf8 (n.bytes.map asciiChar) = n.bytes := (fromUtf8_eq_some.1 (fromUtf8_ascii n.ascii)).symm
  have htrim : utf8 (trimEndMatches '.' (n.bytes.map asciiChar)) = n.bytes := by
    have := utf8_trimEndMatches (b := 46) (by decide) (n.bytes.map asciiChar)
    rwa [hutf8, n.no_trailing_dot] at this
  simp only [validateDnsName, utf8_toAsciiLowercase, htrim, n.lowered, n.ok, dite_true]

/-! ## The record -/

/-- `std::net::SocketAddr` -/
inductive SocketAddr where
  | v4 (ip : BitVec 32) (port : UInt16)
  | v6 (ip : BitVec 128) (port : UInt16) (flowinfo scopeId : UInt32)
deriving DecidableEq

inductive ListenAddr where
  | unix (path : Bytes)
  | tcp (addr : SocketAddr)
deriving DecidableEq

/-- What is compared of an address. -/
def ListenAddr.compared : ListenAddr → (Bool × List Bytes) ⊕ SocketAddr
  | .unix path => .inl (components path)
  | .tcp addr => .inr addr

/-- One path may be spelled in several ways. -/
def ListenAddr.Same (a b : ListenAddr) : Prop := a.compared = b.compared

instance (a b : ListenAddr) : Decidable (a.Same b) := inferInstanceAs (Decidable (a.compared = b.compared))

namespace ListenAddr.Same

theorem refl (a : ListenAddr) : a.Same a := rfl

theorem symm {a b : ListenAddr} (h : a.Same b) : b.Same a := Eq.symm h

theorem trans {a b c : ListenAddr} (h : a.Same b) (h' : b.Same c) : a.Same c := Eq.trans h h'

end ListenAddr.Same

example : (ListenAddr.unix (ascii "/run//s")).Same (.unix (ascii "/run/s/")) := by decide

/-- `Key` stands for the private keys that passed `validate_key` (RSA, 2048 to 4096 bits). -/
structure RuntimeConfig (Key : Type) where
  domain : DnsName
  selector : DnsName
  privateKey : Bytes
  listen : ListenAddr
  requireFips : Bool
  key : Key
deriving DecidableEq

/-! ## FIPS -/

/-- `readKernelStatus` is what reading `/proc/sys/crypto/fips_enabled` gave (an error by its
text), `debugStr` the formatting of a string with `:?`. -/
def checkFipsEnvironmentWith (debugStr : List Char → String) (required : Bool)
    (readKernelStatus : Except String (List Char)) (opensslIsFips : Bool) : Except String Unit :=
  if !required then .ok ()
  else
    match readKernelStatus with
    | .ok value =>
      if trim value = ['1'] then
        if opensslIsFips then .ok ()
        else .error "kernel FIPS mode is enabled but system OpenSSL is not in FIPS mode"
      else if trim value = ['0'] then
        .error "system FIPS mode is disabled; dkim-lite production builds require FIPS"
      else .error ("unexpected FIPS status in /proc/sys/crypto/fips_enabled: " ++ debugStr value)
    | .error e => .error ("cannot inspect /proc/sys/crypto/fips_enabled: " ++ e)

/-- The check passes when FIPS is not required, or when the kernel and OpenSSL both report it. -/
theorem checkFipsEnvironmentWith_ok {debugStr : List Char → String} {required : Bool}
    {status : Except String (List Char)} {opensslIsFips : Bool} :
    checkFipsEnvironmentWith debugStr required status opensslIsFips = .ok () ↔
      (required = true → (∃ value, status = .ok value ∧ trim value = ['1']) ∧ opensslIsFips = true) := by
  unfold checkFipsEnvironmentWith
  cases required with
  | false => simp
  | true =>
    cases status with
    | error e => simp
    | ok value =>
      by_cases h1 : trim value = ['1']
      · cases opensslIsFips <;> simp [h1]
      · by_cases h0 : trim value = ['0'] <;> simp [h1, h0]

end DkimLite
