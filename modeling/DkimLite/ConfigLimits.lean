import DkimLite.ConfigGrammar
import DkimLite.Reload

/-!
# The limits of a loaded configuration

`Limits` is what the README and `SECURITY.md` promise of a configuration; it holds of every one
that is loaded (`load_limits`), and so of every one that becomes active.

The length of a key is read as `size() * 8`, with `size()` in whole bytes. A modulus of 2041 to
2047 bits is therefore taken for one of 2048, although 2048 bits are required; the lower bound
holds for the other lengths. Every dot at the end of a name is removed, not one
(`two_dots_loaded`).
-/

namespace DkimLite
open Rust Text

/-! ## Names -/

/-- A dotted name in lower case, of at most 253 bytes. -/
structure LegalName (name : Bytes) : Prop where
  nonempty : name ≠ []
  length : name.length ≤ 253
  lowered : ∀ b ∈ name, ¬ (65 ≤ b.toNat ∧ b.toNat ≤ 90)
  labels : ∀ label ∈ name.splitOn 46, 1 ≤ label.length ∧ label.length ≤ 63 ∧
    (∀ b ∈ label, isAsciiAlphanumeric b = true ∨ b = 45) ∧ label.head? ≠ some 45 ∧ label.getLast? ≠ some 45

/-- The name is what was written, in lower case and without the dots at its end. -/
def WrittenAs (v : List Char) (n : DnsName) : Prop :=
  ∃ stem k, v = stem ++ List.replicate k '.' ∧ stem.getLast? ≠ some '.' ∧ n.bytes = lower (utf8 stem)

theorem lower_fixed {bs : Bytes} (h : lower bs = bs) : ∀ b ∈ bs, ¬ (65 ≤ b.toNat ∧ b.toNat ≤ 90) := by
  intro b hb hupper
  have hfixed : asciiLower b = b := by
    have hmap : bs.map asciiLower = bs.map id := by rw [List.map_id]; exact h
    exact List.map_inj_left.1 hmap b hb
  revert hupper hfixed
  exact forall_uint8 (P := fun b => 65 ≤ b.toNat ∧ b.toNat ≤ 90 → asciiLower b = b → False) (by decide +kernel) b

theorem labelOk_iff {label : Bytes} : labelOk label = true ↔ label ≠ [] ∧ label.length ≤ 63 ∧ label.head? ≠ some 45 ∧
    label.getLast? ≠ some 45 ∧ ∀ b ∈ label, isAsciiAlphanumeric b = true ∨ b = 45 := by
  simp [labelOk, and_assoc]

theorem dnsNameOk_iff {name : Bytes} : dnsNameOk name = true ↔ name ≠ [] ∧ name.length ≤ 253 ∧
    ∀ label ∈ name.splitOn 46, labelOk label = true := by
  simp [dnsNameOk, and_assoc]

theorem DnsName.legal (n : DnsName) : LegalName n.bytes := by
  obtain ⟨hne, hlen, hlabels⟩ := dnsNameOk_iff.1 n.ok
  refine ⟨hne, hlen, lower_fixed n.lowered, fun label hl => ?_⟩
  obtain ⟨hnonempty, hlength, hhead, hlast, hbytes⟩ := labelOk_iff.1 (hlabels label hl)
  exact ⟨List.length_pos_iff.2 hnonempty, hlength, hbytes, hhead, hlast⟩

theorem validateDnsName_written {kind : String} {v : List Char} {n : DnsName} (h : validateDnsName kind v = .ok n) :
    WrittenAs v n := by
  obtain ⟨k, hk⟩ := trimEndMatches_decomp '.' v
  refine ⟨trimEndMatches '.' v, k, hk, fun hlast => ?_, validateDnsName_bytes h⟩
  have hne : v.rdropWhile (· == '.') ≠ [] := by
    intro hnil
    rw [trimEndMatches, hnil] at hlast
    cases hlast
  rw [trimEndMatches, List.getLast?_eq_some_getLast hne] at hlast
  exact List.rdropWhile_last_not (· == '.') v hne (by simp [Option.some.inj hlast])

/-! ## The listener and the key -/

inductive Loopback : SocketAddr → Prop
  | v4 {ip : BitVec 32} {port : UInt16} : 127 * 2 ^ 24 ≤ ip.toNat → ip.toNat < 128 * 2 ^ 24 → Loopback (.v4 ip port)
  | v6 {port : UInt16} {flowinfo scopeId : UInt32} : Loopback (.v6 1 port flowinfo scopeId)

theorem SocketAddr.isLoopback_iff {addr : SocketAddr} : addr.isLoopback = true ↔ Loopback addr := by
  cases addr with
  | v4 ip port =>
    simp only [isLoopback, beq_iff_eq]
    constructor
    · intro h
      exact .v4 (by omega) (by omega)
    · rintro ⟨hlo, hhi⟩
      omega
  | v6 ip port flowinfo scopeId =>
    simp only [isLoopback, beq_iff_eq]
    constructor
    · rintro rfl
      exact .v6
    · rintro ⟨⟩
      rfl

theorem parseListen_loopback {v : List Char} {addr : SocketAddr} (h : parseListen v = .ok (.tcp addr)) : Loopback addr := by
  unfold parseListen at h
  split at h
  · split at h <;> cases h
  split at h
  · obtain ⟨a, -, h⟩ := bind_eq_ok.1 h
    split at h
    · cases h
      exact SocketAddr.isLoopback_iff.1 (by assumption)
    · cases h
  · cases h

theorem parseListen_absolute {v : List Char} {path : Bytes} (h : parseListen v = .ok (.unix path)) :
    path.head? = some 47 := by
  unfold parseListen at h
  split at h
  · rename_i p hp
    split at h
    · cases h
    · rename_i hroot
      cases h
      simp only [not_or, not_not] at hroot
      obtain ⟨rest, rfl⟩ := List.head?_eq_some_iff.1 hroot.1
      rfl
  split at h
  · obtain ⟨a, -, h⟩ := bind_eq_ok.1 h
    split at h <;> cases h
  · cases h

section
variable {Key : Type} {ssl : OpenSsl Key} {keys : KeyFormat Key}

/-- The bounds on the key, in whole bytes. -/
theorem validateKey_size {key : Key} (h : validateKey ssl keys key = .ok ()) :
    ∃ size, keys.rsaSize key = some size ∧ ¬ size * 8 < 2048 ∧ ¬ size * 8 > 4096 := by
  obtain ⟨size, hsize, h⟩ := bind_eq_ok.1 h
  refine ⟨size, okOr_eq_ok.1 hsize, fun hlow => ?_, fun hhigh => ?_⟩
  · rw [if_pos hlow] at h
    cases h
  · rw [if_pos hhigh] at h
    split at h <;> cases h

/-- The same in bits: the length is known up to the next multiple of eight. -/
theorem validateKey_bits (hkeys : keys.Documented) {key : Key} (h : validateKey ssl keys key = .ok ()) :
    2041 ≤ keys.modulusBits key ∧ keys.modulusBits key ≤ 4096 := by
  obtain ⟨size, hsize, hlow, hhigh⟩ := validateKey_size h
  have hround := hkeys.size key size hsize
  have hbignum := hkeys.bits key size hsize
  have htimes : (size * 8).toNat = size.toNat * 8 := by
    rw [UInt32.toNat_mul]
    exact Nat.mod_eq_of_lt (by show size.toNat * 8 < 2 ^ 32; omega)
  rw [UInt32.lt_iff_toNat_lt, htimes] at hlow
  rw [gt_iff_lt, UInt32.lt_iff_toNat_lt, htimes] at hhigh
  have h2048 : (2048 : UInt32).toNat = 2048 := rfl
  have h4096 : (4096 : UInt32).toNat = 4096 := rfl
  omega

/-! ## Loaded configurations -/

/-- The limits of the configuration that is loaded from `path`. -/
structure Limits (files : Files) (keys : KeyFormat Key) (path : Bytes) (config : RuntimeConfig Key) : Prop where
  domain : LegalName config.domain.bytes
  selector : LegalName config.selector.bytes
  written : ∃ input entries v w, files.readToString path = .ok input ∧ WellFormed (lines input) entries ∧
    ⟨"domain".toList, v⟩ ∈ entries ∧ WrittenAs v config.domain ∧
    ⟨"selector".toList, w⟩ ∈ entries ∧ WrittenAs w config.selector
  /-- the names are in normal form -/
  fixed : validateDnsName "domain" (config.domain.bytes.map asciiChar) = .ok config.domain ∧
    validateDnsName "selector" (config.selector.bytes.map asciiChar) = .ok config.selector
  tcp : ∀ addr, config.listen = .tcp addr → Loopback addr
  unix : ∀ socket, config.listen = .unix socket → socket.head? = some 47
  atMost : keys.modulusBits config.key ≤ 4096
  /-- a length of 2041 to 2047 bits cannot be told from 2048 -/
  atLeast : ¬ (2041 ≤ keys.modulusBits config.key ∧ keys.modulusBits config.key ≤ 2047) →
    2048 ≤ keys.modulusBits config.key

theorem load_limits (hkeys : keys.Documented) {files : Files} {path : Bytes} {config : RuntimeConfig Key}
    (h : load files ssl keys path = .ok config) : Limits files keys path config := by
  obtain ⟨input, entries, hinput, hformed, hc⟩ := load_iff.1 h
  obtain ⟨v, hv, hdomain⟩ := hc.domain
  obtain ⟨w, hw, hselector⟩ := hc.selector
  obtain ⟨l, -, hlisten⟩ := hc.listen
  obtain ⟨bytes, -, -, hkey⟩ := hc.key
  obtain ⟨hlow, hhigh⟩ := validateKey_bits hkeys hkey
  exact {
    domain := config.domain.legal
    selector := config.selector.legal
    written := ⟨input, entries, v, w, hinput, hformed, hv, validateDnsName_written hdomain, hw,
      validateDnsName_written hselector⟩
    fixed := ⟨validateDnsName_self "domain" config.domain, validateDnsName_self "selector" config.selector⟩
    tcp := fun addr haddr => parseListen_loopback (haddr ▸ hlisten)
    unix := fun socket hsocket => parseListen_absolute (hsocket ▸ hlisten)
    atMost := hhigh
    atLeast := fun hno => by omega }

/-- **Every loaded configuration is within the limits**, and so is every one that becomes active
when each attempt loads a file. -/
theorem limits_loaded (ssl : OpenSsl Key) (hkeys : keys.Documented) :
    (∀ files path config, load files ssl keys path = .ok config → Limits files keys path config) ∧
    ∀ (debugStr : List Char → String) (first : Attempt Key) (initial : RuntimeConfig Key) (events : List (MonitorEvent Key)),
      (∀ attempt, attempt = first ∨ .wake attempt ∈ events → ∃ files path, attempt.load = load files ssl keys path) →
      startDaemon debugStr first = .ok initial →
      ∃ files path, Limits files keys path (Monitor.run debugStr initial events).active := by
  refine ⟨fun files path config => load_limits hkeys, fun debugStr first initial events hloads hstart => ?_⟩
  have hlimits : ∀ attempt config, (attempt = first ∨ .wake attempt ∈ events) → attempt.load = .ok config →
      ∃ files path, Limits files keys path config := by
    intro attempt config hattempt hload
    obtain ⟨files, path, hfile⟩ := hloads attempt hattempt
    exact ⟨files, path, load_limits hkeys (hfile.symm.trans hload)⟩
  rcases validated_run debugStr initial events with hsame | ⟨-, attempt, hmem, hconfirms⟩
  · rw [hsame]
    exact hlimits first initial (Or.inl rfl) ((startDaemon_eq_ok debugStr).1 hstart).1
  · exact hlimits attempt _ (Or.inr hmem) hconfirms.1

end

/-! ## A file -/

def exampleText (domain : String) : List Char :=
  ("# outgoing mail\ndomain=" ++ domain ++ "\n selector = s1\r\n\nprivate_key=/etc/dkim-lite/key.pem\n" ++
    "listen=unix:/run/dkim-lite.sock\nrequire_fips=false").toList

def exampleFiles (domain : String) : Files where
  readToString _ := .ok (exampleText domain)
  read _ := .ok []
  display _ := ""

/-- The only key has a modulus of `bits` bits. -/
def exampleKeys (bits : Nat) : KeyFormat Unit where
  privateKeyFromPem _ := .ok ()
  rsaSize _ := some (UInt32.ofNat ((bits + 7) / 8))
  modulusBits _ := bits

theorem exampleKeys_documented {bits : Nat} (h : bits < 2 ^ 29) : (exampleKeys bits).Documented where
  size := by
    rintro _ _ ⟨⟩
    exact UInt32.toNat_ofNat_of_lt (by show (bits + 7) / 8 < 2 ^ 32; omega)
  bits := by
    rintro _ _ ⟨⟩
    exact h

theorem example_loads : load (exampleFiles "Example.COM.") exampleSsl (exampleKeys 2048) [] = .ok exampleConfig := by
  decide +kernel

theorem limits_loaded_example : Limits (exampleFiles "Example.COM.") (exampleKeys 2048) [] exampleConfig :=
  (limits_loaded exampleSsl (exampleKeys_documented (by omega))).1 _ _ _ example_loads

/-- **Two dots and 2041 bits**: the file loads, though its domain is not one of its spellings with at
most one dot removed, and the key has fewer than 2048 bits. -/
theorem two_dots_loaded : (exampleKeys 2041).Documented ∧
    load (exampleFiles "example.com..") exampleSsl (exampleKeys 2041) [] = .ok exampleConfig ∧
    (∀ stem k, k ≤ 1 → "example.com..".toList = stem ++ List.replicate k '.' →
      exampleConfig.domain.bytes ≠ lower (utf8 stem)) ∧
    (exampleKeys 2041).modulusBits exampleConfig.key < 2048 := by
  refine ⟨exampleKeys_documented (by omega), by decide +kernel, fun stem k hk hstem hname => ?_, by decide⟩
  obtain rfl | rfl : k = 0 ∨ k = 1 := by omega
  · rw [List.replicate_zero, List.append_nil] at hstem
    rw [← hstem] at hname
    exact absurd hname (by decide)
  · have hone : "example.com.".toList ++ ['.'] = stem ++ ['.'] := hstem
    rw [← List.append_cancel_right hone] at hname
    exact absurd hname (by decide)

end DkimLite
