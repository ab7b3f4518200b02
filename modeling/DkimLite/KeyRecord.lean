import DkimLite.ConfigLimits
import DkimLite.KeyInstall
import DkimLite.VerifierSpec

/-!
# The DNS record of a generated key (`src/keygen.rs:30-60, 145-155`)

`Publishable` is what a record has to be: quoted strings that hold the whole public key, under the
name a verifier of RFC 6376 section 3.6.2.1 makes of the s= and d= that `sign` writes with the same
settings, and that name must be legal in the DNS.

Domain and selector are each checked to have at most 253 bytes, but not the name made of both:
the record is publishable exactly when they have at most 241 together (`record_publishable`,
`long_name`).
-/

namespace DkimLite
open Rust Text

/-! ## What is to be published -/

/-- The name a record is for: up to the first space, without the final dot. -/
def recordName (record : Bytes) : Bytes := (record.takeWhile (· != SP)).dropLast

/-- Labels of 1 to 63 bytes, and at most 253 bytes in all. -/
structure LegalOwner (name : Bytes) : Prop where
  length : name.length ≤ 253
  labels : ∀ label ∈ name.splitOn 46, 1 ≤ label.length ∧ label.length ≤ 63

/-- A character that is the same inside and outside of quotes. -/
def isPlainChar (b : UInt8) : Bool := 33 ≤ b && b ≤ 126 && b != 34 && b != 92 || b == SP

structure TxtString (s : Bytes) : Prop where
  nonempty : 1 ≤ s.length
  length : s.length ≤ 255
  plain : ∀ b ∈ s, isPlainChar b = true

/-- `s._domainkey.d` -/
def keyName (selector domain : Bytes) : Bytes := selector ++ ascii "._domainkey." ++ domain

/-- The name that a verifier asks for. -/
def queryName (value : Bytes) : Option Bytes := do
  let tags ← Rfc.parseTags (removeFolds value)
  let selector ← tags.lookup (ascii "s")
  let domain ← tags.lookup (ascii "d")
  return keyName selector domain

/-- The domain and the selector of the options are in the file. -/
def SameSettings (options : GenerateOptions) (input : List Char) : Prop :=
  ∃ entries, WellFormed (lines input) entries ∧ ⟨"domain".toList, options.domain⟩ ∈ entries ∧
    ⟨"selector".toList, options.selector⟩ ∈ entries

section
variable {Key : Type}

structure Publishable (env : KeygenEnv Key) (options : GenerateOptions) (publicDer record : Bytes) : Prop where
  strings : ∃ strings : List Bytes, record = recordName record ++ ascii ". IN TXT " ++ [SP].intercalate (strings.map quoted) ∧
    (∀ s ∈ strings, TxtString s) ∧ strings.flatten = ascii "v=DKIM1; k=rsa; p=" ++ base64 publicDer ∧
    base64Decode (strings.flatten.drop (ascii "v=DKIM1; k=rsa; p=").length) = some publicDer
  /-- what is signed with these settings is looked up under the name -/
  queried : ∀ files path input config now headers bodyHash signed, files.readToString path = .ok input →
    SameSettings options input → load files env.ssl env.keys path = .ok config →
    sign ⟨env.ssl, now⟩ config headers bodyHash = .ok signed → queryName signed.value = some (recordName record)
  legal : LegalOwner (recordName record)

/-- The public key of the key that was generated. -/
def IsPublicKey (env : KeygenEnv Key) (options : GenerateOptions) (publicDer : Bytes) : Prop :=
  ∃ key, generateRsa env.maker options.bits = .ok key ∧ env.maker.publicKeyToDer key = .ok publicDer

/-! ## What `generate` returns -/

variable {env : KeygenEnv Key} {options : GenerateOptions}

theorem prepare_ok {domain selector : DnsName} {publicDer privatePem : Bytes}
    (h : prepare env options = .ok (domain, selector, publicDer, privatePem)) :
    validateDnsName "domain" options.domain = .ok domain ∧ validateDnsName "selector" options.selector = .ok selector ∧
      IsPublicKey env options publicDer := by
  obtain ⟨-, -, h⟩ := bind_eq_ok.1 h
  obtain ⟨domain', hdomain, h⟩ := bind_eq_ok.1 h
  obtain ⟨selector', hselector, h⟩ := bind_eq_ok.1 h
  split at h
  · cases h
  split at h
  · cases h
  obtain ⟨key, hkey, h⟩ := bind_eq_ok.1 h
  obtain ⟨-, -, h⟩ := bind_eq_ok.1 h
  obtain ⟨der, hder, h⟩ := bind_eq_ok.1 h
  obtain ⟨pem, -, ⟨⟩⟩ := bind_eq_ok.1 h
  exact ⟨hdomain, hselector, key, hkey, mapError_eq_ok.1 hder⟩

/-- The record, from its parts. -/
def recordOf (domain selector publicKey : Bytes) : Bytes :=
  keyName selector domain ++ ascii ". IN TXT " ++
    [SP].intercalate ((chunks 180 (ascii "v=DKIM1; k=rsa; p=" ++ publicKey)).map quoted)

theorem generated_ok {domain selector : DnsName} {publicDer : Bytes} {g : GeneratedKey}
    (h : generated env options domain selector publicDer = .ok g) :
    g.dnsRecord = recordOf domain.bytes selector.bytes (env.ssl.base64 publicDer) := by
  obtain ⟨record, hrecord, h⟩ := Exec.bind_eq_ok.1 h
  obtain ⟨encoded, hencoded, hrecord⟩ := Exec.bind_eq_ok.1 hrecord
  obtain ⟨-, rfl⟩ := encodeBlock_eq_ok hencoded
  cases h
  cases hrecord
  simp [recordOf, keyName]

/-- What a run that succeeds has prepared. -/
theorem generate_ok {S : Type} {act : S → (c : FsCall) → c.Answer → S → Prop} {s s' : S} {g : GeneratedKey}
    (hrun : Prog.Returns act (generate env options) s (.ok g) s') :
    ∃ domain selector publicDer privatePem, prepare env options = .ok (domain, selector, publicDer, privatePem) ∧
      generated env options domain selector publicDer = .ok g := by
  have hcases := generate_cases hrun
  generalize hresult : (.ok g : Exec GeneratedKey) = result at hcases
  cases hcases with
  | unprepared _ => cases hresult
  | failed _ _ => cases hresult
  | written hprepare _ => exact ⟨_, _, _, _, hprepare, rfl⟩

/-! ## The name -/

theorem keyName_no_space (domain selector : DnsName) : SP ∉ keyName selector.bytes domain.bytes := by
  intro h
  simp only [keyName, List.mem_append] at h
  have hno : ∀ n : DnsName, SP ∉ n.bytes := by
    intro n hmem
    rcases n.mem SP hmem with h | h | h
    · exact absurd h (by decide)
    · exact absurd h (by decide)
    · exact absurd h (by decide)
  rcases h with (h | h) | h
  · exact hno selector h
  · exact absurd h (by decide)
  · exact hno domain h

theorem recordName_recordOf (domain selector : DnsName) (publicKey : Bytes) :
    recordName (recordOf domain.bytes selector.bytes publicKey) = keyName selector.bytes domain.bytes := by
  have hcut : ∀ b ∈ keyName selector.bytes domain.bytes ++ [46], (b != SP) = true := by
    intro b hb
    rw [bne_iff_ne]
    rintro rfl
    rcases List.mem_append.1 hb with hb | hb
    · exact keyName_no_space domain selector hb
    · exact absurd hb (by decide)
  have hsplit : recordOf domain.bytes selector.bytes publicKey = (keyName selector.bytes domain.bytes ++ [46]) ++
      (SP :: (ascii "IN TXT " ++ [SP].intercalate ((chunks 180 (ascii "v=DKIM1; k=rsa; p=" ++ publicKey)).map quoted))) := by
    have hdot : ascii ". IN TXT " = [46] ++ SP :: ascii "IN TXT " := by decide
    rw [recordOf, hdot]
    simp
  rw [recordName, hsplit, List.takeWhile_append_of_pos hcut]
  simp

/-- The labels of the name are those of the parts and `_domainkey`. -/
theorem keyName_labels (selector domain : Bytes) :
    (keyName selector domain).splitOn 46 = selector.splitOn 46 ++ ascii "_domainkey" :: domain.splitOn 46 := by
  have hname : keyName selector domain = selector ++ 46 :: (ascii "_domainkey" ++ 46 :: domain) := by
    have hmid : ascii "._domainkey." = 46 :: (ascii "_domainkey" ++ [46]) := by decide
    rw [keyName, hmid]
    simp
  rw [hname, List.splitOn, List.splitOnP_append_cons _ _ (by simp)]
  exact congrArg (selector.splitOn 46 ++ ·) (Rfc.splitOn_first (by decide) domain)

/-- The name is legal as soon as it is short enough. -/
theorem legalOwner_iff (domain selector : DnsName) : LegalOwner (keyName selector.bytes domain.bytes) ↔
    selector.bytes.length + domain.bytes.length ≤ 241 := by
  have hlength : (keyName selector.bytes domain.bytes).length = selector.bytes.length + 12 + domain.bytes.length := by
    simp only [keyName, List.length_append]
    rfl
  constructor
  · intro h
    have := h.length
    omega
  · intro h
    refine ⟨by omega, fun label hl => ?_⟩
    have hlabels : ∀ n : DnsName, ∀ label ∈ n.bytes.splitOn 46, 1 ≤ label.length ∧ label.length ≤ 63 := by
      intro n label hl
      obtain ⟨-, -, -, hall⟩ := n.legal
      exact ⟨(hall label hl).1, (hall label hl).2.1⟩
    rw [keyName_labels, List.mem_append, List.mem_cons] at hl
    rcases hl with hl | rfl | hl
    · exact hlabels selector label hl
    · decide
    · exact hlabels domain label hl

/-! ## The strings -/

theorem plain_value {publicKey : Bytes} (h : ∀ b ∈ publicKey, isBase64Byte b = true) :
    ∀ b ∈ ascii "v=DKIM1; k=rsa; p=" ++ publicKey, isPlainChar b = true := by
  intro b hb
  rcases List.mem_append.1 hb with hb | hb
  · exact List.all_eq_true.1 (by decide : (ascii "v=DKIM1; k=rsa; p=").all isPlainChar = true) b hb
  · have := h b hb
    revert this
    exact forall_uint8 (P := fun b => isBase64Byte b = true → isPlainChar b = true) (by decide +kernel) b

theorem chunks_txtStrings {value : Bytes} (h : ∀ b ∈ value, isPlainChar b = true) : ∀ s ∈ chunks 180 value, TxtString s := by
  obtain ⟨hflatten, hsizes⟩ := chunks_spec (by omega : 0 < 180) value
  intro s hs
  obtain ⟨hpos, hle⟩ := hsizes s hs
  exact ⟨hpos, by omega, fun b hb => h b (hflatten ▸ List.mem_flatten_of_mem hs hb)⟩

/-! ## The name that is queried -/

/-- The settings of a file mean what the options mean. -/
theorem sameSettings_config {files : Files} {path : Bytes} {input : List Char} {config : RuntimeConfig Key}
    {domain selector : DnsName} (hinput : files.readToString path = .ok input) (hsame : SameSettings options input)
    (hload : load files env.ssl env.keys path = .ok config) (hdomain : validateDnsName "domain" options.domain = .ok domain)
    (hselector : validateDnsName "selector" options.selector = .ok selector) :
    config.domain = domain ∧ config.selector = selector := by
  obtain ⟨entries, hformed, hd, hs⟩ := hsame
  obtain ⟨input', entries', hinput', hformed', hconfigures⟩ := load_iff.1 hload
  rw [hinput, Except.ok.injEq] at hinput'
  subst hinput'
  obtain rfl := written_unique hformed.written hformed'.written
  obtain ⟨v, hv, hvalid⟩ := hconfigures.domain
  obtain ⟨w, hw, hwalid⟩ := hconfigures.selector
  rw [hformed.value_unique hv hd, hdomain, Except.ok.injEq] at hvalid
  rw [hformed.value_unique hw hs, hselector, Except.ok.injEq] at hwalid
  exact ⟨hvalid.symm, hwalid.symm⟩

/-- What a verifier asks for is made of the names in the configuration. -/
theorem queryName_sign {signer : Env Key} (hssl : signer.ssl.Documented) {config : RuntimeConfig Key} {headers : List Header}
    {bodyHash : Digest} {signed : Signed} (h : sign signer config headers bodyHash = .ok signed) :
    queryName signed.value = some (keyName config.selector.bytes config.domain.bytes) := by
  rw [sign_eligible (eligible_of_sign h)] at h
  obtain ⟨timestamp, signature, -, -, -, -, hvalue⟩ := signSelected_eq_ok h
  have hread := (foldSignature_read hssl config headers bodyHash timestamp (hssl.base64_alphabet signature) hvalue).1
  rw [queryName, hread]
  rfl

/-! ## The record -/

/-- **The record is publishable exactly when its name is short enough**: domain and selector have at
most 241 bytes together. -/
theorem record_publishable (hssl : env.ssl.Documented) (hbase64 : ∀ bs, env.ssl.base64 bs = base64 bs)
    {S : Type} {act : S → (c : FsCall) → c.Answer → S → Prop} {s s' : S} {g : GeneratedKey}
    (hrun : Prog.Returns act (generate env options) s (.ok g) s') :
    ∃ publicDer, IsPublicKey env options publicDer ∧ (Publishable env options publicDer g.dnsRecord ↔
      (utf8 (trimEndMatches '.' options.selector)).length + (utf8 (trimEndMatches '.' options.domain)).length ≤ 241) := by
  obtain ⟨domain, selector, publicDer, privatePem, hprepare, hg⟩ := generate_ok hrun
  obtain ⟨hdomain, hselector, hkey⟩ := prepare_ok hprepare
  have hrecord := generated_ok hg
  rw [hbase64] at hrecord
  have hname : recordName g.dnsRecord = keyName selector.bytes domain.bytes := by
    rw [hrecord, recordName_recordOf]
  have hbound : (utf8 (trimEndMatches '.' options.selector)).length + (utf8 (trimEndMatches '.' options.domain)).length =
      selector.bytes.length + domain.bytes.length := by
    rw [validateDnsName_bytes hdomain, validateDnsName_bytes hselector, length_lower, length_lower]
  refine ⟨publicDer, hkey, ?_⟩
  rw [hbound, ← legalOwner_iff, ← hname]
  refine ⟨fun h => h.legal, fun hlegal => ⟨?_, ?_, hlegal⟩⟩
  · have hflatten := (chunks_spec (by omega : 0 < 180) (ascii "v=DKIM1; k=rsa; p=" ++ base64 publicDer)).1
    refine ⟨_, by rw [hname, hrecord, recordOf], chunks_txtStrings (plain_value (base64_alphabet publicDer)), hflatten, ?_⟩
    rw [hflatten, List.drop_left, base64Decode_base64]
  · intro files path input config now headers bodyHash signed hinput hsame hload hsign
    obtain ⟨rfl, rfl⟩ := sameSettings_config hinput hsame hload hdomain hselector
    rw [queryName_sign hssl hsign, hname]

end

/-! ## Two records -/

theorem generated_short {Key : Type} (env : KeygenEnv Key) (options : GenerateOptions) (domain selector : DnsName)
    {publicDer : Bytes} (h : publicDer.length ≤ 512) : ∃ g, generated env options domain selector publicDer = .ok g := by
  rw [generated, dnsRecord, encodeBlock_ok h]
  exact ⟨_, rfl⟩

/-- A run on an empty disk. -/
theorem example_generates {options : GenerateOptions} {domain selector : DnsName} (hpath : options.privateKey = ascii "/k")
    (hprepare : prepare exampleKeygen options = .ok (domain, selector, exampleDer, examplePem)) :
    ∃ g s', Prog.Returns (FsCall.Works id ()) (generate exampleKeygen options) Disk.empty (.ok g) s' := by
  obtain ⟨g, hg⟩ := generated_short exampleKeygen options domain selector (by rw [length_exampleDer]; omega : exampleDer.length ≤ 512)
  let temporary := temporaryName (ascii "k") 1 0
  have hwrite : Prog.Returns (FsCall.Works id ()) (writePrivateKey (fun _ => "/k") 1 (ascii "/k") examplePem) Disk.empty
      (.ok ()) ((linked id () examplePem (ascii "/") temporary (ascii "k") 0 1 Disk.empty).setName (ascii "/", temporary) none) :=
    writePrivateKey_works (f := id) id (by decide) (by decide) (by decide) rfl rfl rfl
  rw [← hpath] at hwrite
  have hrun := generate_returns hprepare hwrite
  rw [hg] at hrun
  exact ⟨g, _, hrun⟩

theorem record_publishable_example : ∃ g s' publicDer, Prog.Returns (FsCall.Works id ())
      (generate exampleKeygen (exampleOptions "Example.COM." "S1")) Disk.empty (.ok g) s' ∧
    Publishable exampleKeygen (exampleOptions "Example.COM." "S1") publicDer g.dnsRecord := by
  obtain ⟨g, s', hrun⟩ := example_generates rfl example_prepared
  obtain ⟨publicDer, -, hiff⟩ := record_publishable exampleSsl_documented (fun _ => rfl) hrun
  exact ⟨g, s', publicDer, hrun, hiff.2 (by decide)⟩

/-- Four labels, 253 bytes. -/
def longDomain : List Char :=
  List.replicate 63 'a' ++ '.' :: List.replicate 63 'a' ++ '.' :: List.replicate 63 'a' ++ '.' :: List.replicate 61 'a'

def longOptions : GenerateOptions := ⟨longDomain, "s1".toList, ascii "/k", 2048, false⟩

def longName : DnsName := ⟨utf8 longDomain, by decide +kernel, by decide +kernel⟩

theorem long_prepared : prepare exampleKeygen longOptions = .ok (longName, exampleConfig.selector, exampleDer, examplePem) := by
  decide +kernel

/-- **A record under a name of 267 bytes**, which the DNS cannot hold. -/
theorem long_name : ∃ g s', Prog.Returns (FsCall.Works id ()) (generate exampleKeygen longOptions) Disk.empty (.ok g) s' ∧
    (recordName g.dnsRecord).length = 267 ∧ ¬ LegalOwner (recordName g.dnsRecord) := by
  obtain ⟨g, s', hrun⟩ := example_generates rfl long_prepared
  obtain ⟨domain, selector, publicDer, privatePem, hprepare, hg⟩ := generate_ok hrun
  rw [long_prepared, Except.ok.injEq, Prod.mk.injEq, Prod.mk.injEq] at hprepare
  obtain ⟨rfl, rfl, -⟩ := hprepare
  have hlength : (recordName g.dnsRecord).length = 267 := by
    rw [generated_ok hg, recordName_recordOf]
    decide +kernel
  refine ⟨g, s', hrun, hlength, fun h => ?_⟩
  have := h.length
  omega

end DkimLite
