import DkimLite.Body
import DkimLite.Config
import DkimLite.Header
import DkimLite.MailboxSpec
import DkimLite.Text.Base64

/-!
# `sign` and `fold_signature` (`src/dkim.rs:8-22, 150-210, 427-448`)

| here | there |
| --- | --- |
| `signedHeaders` | the table `SIGNED_HEADERS` (`dkim.rs:8-22`) |
| `selectStep`, `select` | the loop that picks the headers (`:167-177`) |
| `unsignedValue` | the `format!` of the tags (`:184-191`) |
| `hashHeaders` | the hashing loop (`:195-199`) |
| `sign` | `sign` (`:150-210`) |
| `foldToken`, `foldSignature` | `fold_signature` (`:427-448`) |

OpenSSL and the clock are parameters: `Env` holds what they answer, and `OpenSsl.Documented`
states the facts about OpenSSL that are used (the alphabet and length of base64, and that an
RSA signature of a key of at most 4096 bits has at most 512 bytes: `Key` is the type of the keys that a
configuration can hold).

`Signed` records two things beside the value returned: the names listed in h= and the bytes
given to the signer. They are what a verifier recomputes.
-/

namespace DkimLite
open Rust Text

/-! ## The world outside -/

/-- The OpenSSL calls of the signer. `signerUpdate` is asked about the bytes already hashed and
the next ones; `signToVec` about all of them. -/
structure OpenSsl (Key : Type) where
  sha256 : Bytes → Digest
  base64 : Bytes → Bytes
  signerNew : Key → Except String Unit
  signerUpdate : Key → Bytes → Bytes → Except String Unit
  signToVec : Key → Bytes → Except String Bytes

structure OpenSsl.Encodes {Key : Type} (ssl : OpenSsl Key) : Prop where
  base64_alphabet : ∀ bs, ∀ b ∈ ssl.base64 bs, isBase64Byte b = true
  base64_length : ∀ bs, (ssl.base64 bs).length = 4 * ((bs.length + 2) / 3)

structure OpenSsl.Documented {Key : Type} (ssl : OpenSsl Key) : Prop extends ssl.Encodes where
  sign_length : ∀ key data sig, ssl.signToVec key data = .ok sig → sig.length ≤ 512

/-- `now` is the time since the Unix epoch in seconds; `none` when the clock is before it. -/
structure Env (Key : Type) where
  ssl : OpenSsl Key
  now : Option UInt64

/-- `openssl::base64::encode_block`: the length of the output has to fit a C `int`. -/
def encodeBlock {Key : Type} (ssl : OpenSsl Key) (src : Bytes) : Exec Bytes :=
  if 4 * ((src.length + 2) / 3) + 1 < 2 ^ 31 then .ok (ssl.base64 src) else .panic

theorem encodeBlock_ok {Key : Type} {ssl : OpenSsl Key} {src : Bytes} (h : src.length ≤ 512) :
    encodeBlock ssl src = .ok (ssl.base64 src) := by
  have hlt : 4 * ((src.length + 2) / 3) + 1 < 2 ^ 31 := by omega
  rw [encodeBlock, if_pos hlt]

theorem encodeBlock_eq_ok {Key : Type} {ssl : OpenSsl Key} {src out : Bytes} (h : encodeBlock ssl src = .ok out) :
    4 * ((src.length + 2) / 3) + 1 < 2 ^ 31 ∧ out = ssl.base64 src := by
  unfold encodeBlock at h
  split at h
  · cases h; exact ⟨by assumption, rfl⟩
  · cases h

/-- `.map_err(|e| format!(...))?` -/
def orErr {α : Type} (what : String) : Except String α → Exec α
  | .ok a => .ok a
  | .error e => .err (what ++ e)

theorem orErr_eq_ok {α : Type} {what : String} {x : Except String α} {a : α} : orErr what x = .ok a ↔ x = .ok a := by
  cases x <;> simp [orErr]

theorem orErr_safe {α : Type} (what : String) (x : Except String α) : (orErr what x).Safe fun a => x = .ok a := by
  cases x with
  | ok a => exact rfl
  | error e => trivial

/-! ## `fold_signature` -/

def foldLimit : Nat := 72

/-- One token: `out` and `column`. -/
def foldToken : Bytes × Nat → Bytes → Bytes × Nat
  | (out, column), token =>
    let needed := if column = 0 then token.length else token.length + 1
    if 0 < column ∧ foldLimit < column + needed then (out ++ [CR, LF, TAB] ++ token, 1 + token.length)
    else if 0 < column then (out ++ [SP] ++ token, column + 1 + token.length)
    else (out ++ token, column + token.length)

def foldSignature (value : Bytes) : Bytes := ((value.splitOn SP).foldl foldToken ([], 0)).1

/-! ## `sign` -/

def fromName : Bytes := ascii "from"

theorem fromName_ok : fromName ≠ [] ∧ fromName.length ≤ 998 ∧ fromName.all isNameByte = true := by decide

def signedHeaders : List Bytes :=
  [fromName, ascii "sender", ascii "reply-to", ascii "subject", ascii "date", ascii "message-id", ascii "to",
    ascii "cc", ascii "mime-version", ascii "content-type", ascii "content-transfer-encoding",
    ascii "in-reply-to", ascii "references"]

/-- `headers.iter().rev().find(|h| h.is(name))` -/
def bottomMost (headers : List Header) (name : Bytes) : Option Header := headers.reverse.find? (·.is name)

/-- One name: `selected` and `h_names`. -/
def selectStep (headers : List Header) : List Header × List Bytes → Bytes → List Header × List Bytes
  | (selected, hNames), name =>
    let s := match bottomMost headers name with
      | some header => (selected ++ [header], hNames ++ [name])
      | none => (selected, hNames)
    -- the second From of h= has no input bytes
    if name = fromName then (s.1, s.2 ++ [fromName]) else s

def select (headers : List Header) : List Header × List Bytes :=
  signedHeaders.foldl (selectStep headers) ([], [])

/-- The tags up to the empty b=. -/
def unsignedValue (domain selector : Bytes) (timestamp : Nat) (hNames : List Bytes) (bodyHash : Bytes) : Bytes :=
  ascii "v=1; a=rsa-sha256; c=relaxed/relaxed; d=" ++ domain ++ ascii "; s=" ++ selector ++ ascii "; t=" ++
    decimal timestamp ++ ascii "; h=" ++ [COLON].intercalate hNames ++ ascii "; bh=" ++ bodyHash ++ ascii "; b="

/-- What `sign` returns, with the h= list and the bytes the signer was given. -/
structure Signed where
  value : Bytes
  hNames : List Bytes
  hashed : Bytes
deriving DecidableEq

section
variable {Key : Type}

def hashHeaders (ssl : OpenSsl Key) (key : Key) : Bytes → List Header → Exec Bytes
  | hashed, [] => return hashed
  | hashed, h :: hs => do
    let canonical ← canonicalizeHeader h.name h.value
    orErr "cannot hash header: " (ssl.signerUpdate key hashed canonical)
    hashHeaders ssl key (hashed ++ canonical) hs

/-- `sign` after its checks of the From header (`:167-210`). -/
def signSelected (env : Env Key) (config : RuntimeConfig Key) (headers : List Header) (bodyHash : Digest) :
    Exec Signed := do
  let (selected, hNames) := select headers
  let some timestamp := env.now | Exec.err "system clock is before Unix epoch"
  let bodyHash ← encodeBlock env.ssl bodyHash.toList
  let unsigned := unsignedValue config.domain.bytes config.selector.bytes timestamp.toNat hNames bodyHash
  orErr "cannot initialize RSA-SHA256 signer: " (env.ssl.signerNew config.key)
  let hashed ← hashHeaders env.ssl config.key [] selected
  let canonical ← canonicalizeSignatureHeader unsigned
  orErr "cannot hash DKIM-Signature: " (env.ssl.signerUpdate config.key hashed canonical)
  let hashed := hashed ++ canonical
  let signature ← orErr "RSA-SHA256 signing failed: " (env.ssl.signToVec config.key hashed)
  let signature ← encodeBlock env.ssl signature
  return { value := foldSignature (unsigned ++ signature), hNames, hashed }

def sign (env : Env Key) (config : RuntimeConfig Key) (headers : List Header) (bodyHash : Digest) : Exec Signed := do
  let fromHeaders := headers.filter (·.is fromName)
  if fromHeaders.length ≠ 1 then Exec.err "message must contain exactly one From header"
  let header ← index fromHeaders 0
  let some domain ← fromDomain header.value | Exec.err "cannot extract a single From domain"
  if !eqIgnoreAsciiCase domain config.domain.bytes then
    Exec.err ("From domain " ++ asText domain ++ " does not match configured domain")
  signSelected env config headers bodyHash

/-! ## What the loops compute -/

/-- The names of h=. -/
def hNamesOf (headers : List Header) : List Bytes :=
  signedHeaders.flatMap fun name =>
    (if (bottomMost headers name).isSome then [name] else []) ++ if name = fromName then [fromName] else []

theorem select_eq (headers : List Header) :
    select headers = (signedHeaders.filterMap (bottomMost headers), hNamesOf headers) := by
  have step : ∀ (names : List Bytes) (s : List Header × List Bytes),
      names.foldl (selectStep headers) s = (s.1 ++ names.filterMap (bottomMost headers), s.2 ++ names.flatMap fun name =>
        (if (bottomMost headers name).isSome then [name] else []) ++ if name = fromName then [fromName] else []) := by
    intro names
    induction names with
    | nil => simp
    | cons name names ih =>
      intro s
      rw [List.foldl_cons, ih]
      by_cases hf : name = fromName
      · subst hf
        cases hb : bottomMost headers fromName <;> simp [selectStep, hb]
      · cases hb : bottomMost headers name <;> simp [selectStep, hb, hf]
  exact step signedHeaders ([], [])

theorem bottomMost_eq_some {headers : List Header} {name : Bytes} {h : Header} (hb : bottomMost headers name = some h) :
    h ∈ headers ∧ h.is name = true := by
  have hfind : headers.reverse.find? (fun h => h.is name) = some h := hb
  have his := List.find?_some hfind
  exact ⟨by simpa using List.mem_of_find?_eq_some hfind, his⟩

/-- Canonical fields, each with its CRLF. -/
theorem hashHeaders_eq_ok {ssl : OpenSsl Key} {key : Key} : ∀ {hs : List Header} {hashed out : Bytes},
    hashHeaders ssl key hashed hs = .ok out → out = hashed ++ joinLines (hs.map fun h => relaxedField h.name h.value)
  | [], hashed, out, h => by cases h; simp
  | h :: hs, hashed, out, heq => by
    rw [hashHeaders, canonicalizeHeader_eq, Exec.ok_bind] at heq
    obtain ⟨-, -, hrest⟩ := Exec.bind_eq_ok.1 heq
    rw [hashHeaders_eq_ok hrest]
    simp

theorem hashHeaders_safe (ssl : OpenSsl Key) (key : Key) : ∀ (hs : List Header) (hashed : Bytes),
    (hashHeaders ssl key hashed hs).Safe fun _ => True
  | [], _ => trivial
  | h :: hs, hashed => by
    rw [hashHeaders, canonicalizeHeader_eq, Exec.ok_bind]
    exact (orErr_safe _ _).bind fun _ _ => hashHeaders_safe ssl key hs _

/-! ## When and what `sign` signs -/

/-- A single From field, of the configured domain. -/
def Eligible (config : RuntimeConfig Key) (headers : List Header) : Prop :=
  ∃ header domain, headers.filter (·.is fromName) = [header] ∧ fromDomain header.value = .ok (some domain) ∧
    lower domain = config.domain.bytes

/-- `from_domain` returns lower case, so the comparison without case is equality. -/
theorem eligible_iff {config : RuntimeConfig Key} {headers : List Header} : Eligible config headers ↔
    ∃ header, headers.filter (·.is fromName) = [header] ∧ fromDomain header.value = .ok (some config.domain.bytes) := by
  constructor
  · rintro ⟨header, domain, hfilter, hdomain, heq⟩
    obtain ⟨o, ho, hacc⟩ := fromDomain_spec header.value
    rw [hdomain, Exec.ok.injEq] at ho
    obtain ⟨m, -, hm⟩ := hacc domain ho.symm
    rw [hm.lowered] at heq
    exact ⟨header, hfilter, by rw [hdomain, heq]⟩
  · rintro ⟨header, hfilter, hdomain⟩
    exact ⟨header, _, hfilter, hdomain, config.domain.lowered⟩

theorem sign_eligible {config : RuntimeConfig Key} {headers : List Header} (h : Eligible config headers)
    (env : Env Key) (bodyHash : Digest) :
    sign env config headers bodyHash = signSelected env config headers bodyHash := by
  obtain ⟨header, domain, hfilter, hdomain, heq⟩ := h
  have hcase : eqIgnoreAsciiCase domain config.domain.bytes = true := by
    rw [eqIgnoreAsciiCase_iff, heq, config.domain.lowered]
  simp [sign, hfilter, hdomain, hcase]

theorem sign_not_eligible {config : RuntimeConfig Key} {headers : List Header} (h : ¬ Eligible config headers)
    (env : Env Key) (bodyHash : Digest) : ∃ e, sign env config headers bodyHash = .err e := by
  match hfilter : headers.filter (·.is fromName) with
  | [] => exact ⟨"message must contain exactly one From header", by simp [sign, hfilter]⟩
  | _ :: _ :: _ => exact ⟨"message must contain exactly one From header", by simp [sign, hfilter]⟩
  | [header] =>
    obtain ⟨o, ho, -⟩ := fromDomain_spec header.value
    cases o with
    | none => exact ⟨"cannot extract a single From domain", by simp [sign, hfilter, ho]⟩
    | some domain =>
      have hcase : eqIgnoreAsciiCase domain config.domain.bytes = false := by
        rw [Bool.eq_false_iff]
        intro hc
        rw [eqIgnoreAsciiCase_iff, config.domain.lowered] at hc
        exact h ⟨header, domain, hfilter, ho, hc⟩
      exact ⟨"From domain " ++ asText domain ++ " does not match configured domain", by simp [sign, hfilter, ho, hcase]⟩

theorem eligible_of_sign {env : Env Key} {config : RuntimeConfig Key} {headers : List Header} {bodyHash : Digest}
    {signed : Signed} (h : sign env config headers bodyHash = .ok signed) : Eligible config headers := by
  by_contra hnot
  obtain ⟨e, he⟩ := sign_not_eligible hnot env bodyHash
  rw [he] at h
  cases h

/-- The tags of a signature made at `timestamp`. -/
def unsignedOf (env : Env Key) (config : RuntimeConfig Key) (headers : List Header) (bodyHash : Digest)
    (timestamp : UInt64) : Bytes :=
  unsignedValue config.domain.bytes config.selector.bytes timestamp.toNat (hNamesOf headers)
    (env.ssl.base64 bodyHash.toList)

/-- The bytes the signer is given: the canonical form of the bottom-most field of each name,
then that of the signature field without its CRLF. -/
def hashInputOf (headers : List Header) (unsigned : Bytes) : Bytes :=
  joinLines ((signedHeaders.filterMap (bottomMost headers)).map fun h => relaxedField h.name h.value) ++
    relaxedField dkimSignatureName unsigned

theorem signSelected_eq_ok {env : Env Key} {config : RuntimeConfig Key} {headers : List Header} {bodyHash : Digest}
    {signed : Signed} (h : signSelected env config headers bodyHash = .ok signed) :
    ∃ timestamp signature, env.now = some timestamp ∧
      signed.hNames = hNamesOf headers ∧
      signed.hashed = hashInputOf headers (unsignedOf env config headers bodyHash timestamp) ∧
      env.ssl.signToVec config.key signed.hashed = .ok signature ∧
      signed.value = foldSignature (unsignedOf env config headers bodyHash timestamp ++ env.ssl.base64 signature) := by
  simp only [signSelected, select_eq] at h
  cases hnow : env.now with
  | none => rw [hnow] at h; cases h
  | some timestamp =>
    rw [hnow] at h
    obtain ⟨bh, hbh, h⟩ := Exec.bind_eq_ok.1 h
    obtain ⟨-, -, h⟩ := Exec.bind_eq_ok.1 h
    obtain ⟨hashed, hhashed, h⟩ := Exec.bind_eq_ok.1 h
    rw [canonicalizeSignatureHeader_eq, Exec.ok_bind] at h
    obtain ⟨-, -, h⟩ := Exec.bind_eq_ok.1 h
    obtain ⟨signature, hsig, h⟩ := Exec.bind_eq_ok.1 h
    obtain ⟨b64, hb64, h⟩ := Exec.bind_eq_ok.1 h
    obtain rfl := hashHeaders_eq_ok hhashed
    obtain ⟨-, rfl⟩ := encodeBlock_eq_ok hbh
    obtain ⟨-, rfl⟩ := encodeBlock_eq_ok hb64
    simp only [Exec.pure_eq, Exec.ok.injEq] at h
    subst h
    refine ⟨timestamp, signature, rfl, rfl, ?_, orErr_eq_ok.1 hsig, ?_⟩
    · rw [hashInputOf, unsignedOf, List.nil_append]
    · rw [unsignedOf]

/-- What the configuration decides in a signature over `headers`: whose domain the From field must
have, d= and s=, and the key. -/
def SignedWith (env : Env Key) (config : RuntimeConfig Key) (headers : List Header) (value : Bytes) : Prop :=
  (∃ header, headers.filter (·.is fromName) = [header] ∧ fromDomain header.value = .ok (some config.domain.bytes)) ∧
    ∃ timestamp bodyHash hashed signature, env.ssl.signToVec config.key hashed = .ok signature ∧
      value = foldSignature (unsignedValue config.domain.bytes config.selector.bytes timestamp (hNamesOf headers)
        bodyHash ++ env.ssl.base64 signature)

theorem signedWith_of_sign {env : Env Key} {config : RuntimeConfig Key} {headers : List Header} {bodyHash : Digest}
    {signed : Signed} (h : sign env config headers bodyHash = .ok signed) :
    SignedWith env config headers signed.value := by
  have hel := eligible_of_sign h
  rw [sign_eligible hel] at h
  obtain ⟨timestamp, signature, -, -, -, hsig, hvalue⟩ := signSelected_eq_ok h
  exact ⟨eligible_iff.1 hel, _, _, _, signature, hsig, hvalue⟩

/-- **No panic in `sign`.** -/
theorem sign_safe {env : Env Key} (hssl : env.ssl.Documented) (config : RuntimeConfig Key) (headers : List Header)
    (bodyHash : Digest) : (sign env config headers bodyHash).Safe fun _ => True := by
  by_cases hel : Eligible config headers
  swap
  · obtain ⟨e, he⟩ := sign_not_eligible hel env bodyHash
    rw [he]; trivial
  rw [sign_eligible hel]
  simp only [signSelected]
  cases env.now with
  | none => trivial
  | some timestamp =>
    have hbh : bodyHash.toList.length ≤ 512 := by rw [Vector.length_toList]; omega
    simp only [encodeBlock_ok hbh, Exec.ok_bind]
    refine (orErr_safe _ _).bind fun _ _ => ?_
    refine (hashHeaders_safe _ _ _ _).bind fun hashed _ => ?_
    rw [canonicalizeSignatureHeader_eq, Exec.ok_bind]
    refine (orErr_safe _ _).bind fun _ _ => ?_
    refine (orErr_safe _ _).bind fun signature hsig => ?_
    rw [encodeBlock_ok (hssl.sign_length _ _ _ hsig)]
    trivial

/-! ## When signing works -/

/-- The clock is past the epoch and OpenSSL reports no error. -/
structure Env.Works (env : Env Key) : Prop where
  clock : env.now.isSome = true
  signer : ∀ key, env.ssl.signerNew key = .ok ()
  update : ∀ key hashed next, env.ssl.signerUpdate key hashed next = .ok ()
  signature : ∀ key hashed, ∃ sig, env.ssl.signToVec key hashed = .ok sig

theorem hashHeaders_works {env : Env Key} (hworks : env.Works) (key : Key) : ∀ (hs : List Header) (hashed : Bytes),
    ∃ out, hashHeaders env.ssl key hashed hs = .ok out
  | [], hashed => ⟨hashed, rfl⟩
  | h :: hs, hashed => by
    obtain ⟨out, hout⟩ := hashHeaders_works hworks key hs (hashed ++ (relaxedField h.name h.value ++ CRLF))
    refine ⟨out, ?_⟩
    rw [hashHeaders, canonicalizeHeader_eq, Exec.ok_bind, hworks.update]
    exact hout

/-- Then every eligible message is signed. -/
theorem sign_works {env : Env Key} (hssl : env.ssl.Documented) (hworks : env.Works) {config : RuntimeConfig Key}
    {headers : List Header} (hel : Eligible config headers) (bodyHash : Digest) :
    ∃ signed, sign env config headers bodyHash = .ok signed := by
  obtain ⟨timestamp, hnow⟩ := Option.isSome_iff_exists.1 hworks.clock
  have hbh : bodyHash.toList.length ≤ 512 := by rw [Vector.length_toList]; omega
  obtain ⟨hashed, hhashed⟩ := hashHeaders_works hworks config.key (select headers).1 []
  rw [sign_eligible hel, signSelected]
  simp only [hnow, encodeBlock_ok hbh, Exec.ok_bind, hworks.signer, orErr, hhashed, canonicalizeSignatureHeader_eq,
    hworks.update]
  obtain ⟨sig, hsig⟩ := hworks.signature config.key
    (hashed ++ relaxedField dkimSignatureName (unsignedValue config.domain.bytes config.selector.bytes timestamp.toNat
      (select headers).2 (env.ssl.base64 bodyHash.toList)))
  simp only [hsig, encodeBlock_ok (hssl.sign_length _ _ _ hsig), Exec.ok_bind, Exec.pure_eq]
  exact ⟨_, rfl⟩

end

/-! ## An example signer -/

/-- The SHA-256 digest of the empty string. -/
def emptyDigest : Digest :=
  ⟨#[0xe3, 0xb0, 0xc4, 0x42, 0x98, 0xfc, 0x1c, 0x14, 0x9a, 0xfb, 0xf4, 0xc8, 0x99, 0x6f, 0xb9, 0x24,
     0x27, 0xae, 0x41, 0xe4, 0x64, 0x9b, 0x93, 0x4c, 0xa4, 0x95, 0x99, 0x1b, 0x78, 0x52, 0xb8, 0x55], rfl⟩

/-- An OpenSSL that has only ever been asked about empty bodies, with a 2048-bit key that gives
every input the same signature. -/
def exampleSsl : OpenSsl Unit where
  sha256 _ := emptyDigest
  base64 := base64
  signerNew _ := .ok ()
  signerUpdate _ _ _ := .ok ()
  signToVec _ _ := .ok (List.replicate 256 7)

theorem exampleSsl_documented : exampleSsl.Documented where
  base64_alphabet := base64_alphabet
  base64_length := length_base64
  sign_length := by rintro _ _ _ ⟨⟩; rw [List.length_replicate]; omega

def exampleEnv : Env Unit := ⟨exampleSsl, some 1700000000⟩

theorem exampleEnv_works : exampleEnv.Works := ⟨rfl, fun _ => rfl, fun _ _ _ => rfl, fun _ _ => ⟨_, rfl⟩⟩

def exampleConfig : RuntimeConfig Unit where
  domain := ⟨ascii "example.com", by decide, by decide⟩
  selector := ⟨ascii "s1", by decide, by decide⟩
  privateKey := ascii "/etc/dkim-lite/key.pem"
  listen := .unix (ascii "/run/dkim-lite.sock")
  requireFips := false
  key := ()

end DkimLite
