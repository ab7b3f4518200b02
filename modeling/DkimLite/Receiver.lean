import DkimLite.BodySpec
import DkimLite.KeyRecord

/-!
# A receiver, as RFC 6376 describes it

Written from sections 3.4.4 (relaxed body), 3.6 (key records), 3.7 and 6.1 (what a verifier does with one
signature field), and from RFC 1035 section 5.1 (a line of a zone file), not from the signer. The hash, the
check of an RSA signature and the DNS are parameters.

`publish` is the DNS with one line in it, and `Rfc.accepts` the verdict on a message whose body came as
lines, as every body comes over SMTP. `accepts_of_sign`: it accepts what `sign` has signed.
-/

namespace DkimLite.Rfc
open Rust Text

/-! ## A zone of one line -/

def QUOTE : UInt8 := 34

/-- The quoted strings of a line: what stands between its first two quotes, between the next two, and so on. -/
def between : List Bytes → List Bytes
  | _ :: s :: rest => s :: between rest
  | _ => []

def quotedStrings (line : Bytes) : List Bytes := between (line.splitOn QUOTE)

/-- The DNS in which `line` is the only one: the TXT strings of a name, put together. A name of more than
253 bytes or a string of more than 255 cannot be published. -/
def publish (line name : Bytes) : Option Bytes :=
  if name = recordName line ∧ name.length ≤ 253 ∧ (quotedStrings line).all fun s => s.length ≤ 255 then
    some (quotedStrings line).flatten
  else none

/-! ## The verdict -/

/-- White space collapsed in each line and gone at its end, no empty lines at the end of the body. -/
def rfcRelaxedBody (body : List Bytes) : Bytes := joinLines ((body.map canonLine).rdropWhile List.isEmpty)

/-- The public key of a key record. An empty one is revoked. -/
def recordKey (record : Bytes) : Option Bytes := do
  let tags ← parseTags record
  if (tags.lookup (ascii "v") = none ∨ tags.head? = some (ascii "v", ascii "DKIM1")) ∧
      (tags.lookup (ascii "k")).getD (ascii "rsa") = ascii "rsa" then do
    let key ← tags.lookup (ascii "p")
    if key = [] then none else base64Decode key
  else none

/-- The fields of a signature that a verifier of rsa-sha256 and relaxed/relaxed understands: d=, s=, bh= and b=. -/
def signatureFields (tags : List Tag) : Option (Bytes × Bytes × Bytes × Bytes) := do
  let names ← tags.lookup (ascii "h")
  if tags.lookup (ascii "v") = some (ascii "1") ∧ tags.lookup (ascii "a") = some (ascii "rsa-sha256") ∧
      tags.lookup (ascii "c") = some (ascii "relaxed/relaxed") ∧
      (hTagNames names).any (eqIgnoreAsciiCase fromName) then do
    let domain ← tags.lookup (ascii "d")
    let selector ← tags.lookup (ascii "s")
    let bodyHash ← tags.lookup (ascii "bh")
    let signature ← tags.lookup (ascii "b")
    return (domain, selector, bodyHash, signature)
  else none

section
variable (verify : Bytes → Bytes → Bytes → Bool) (sha256 : Bytes → Digest) (dns : Bytes → Option Bytes)

/-- `verify` is given the public key, what was hashed and the signature. -/
def verdict (fields : List Field) (sig : Field) (body : List Bytes) : Option Bool := do
  let tags ← parseTags (removeFolds sig.2)
  let (domain, selector, bodyHash, signature) ← signatureFields tags
  let record ← dns (keyName selector domain)
  let key ← recordKey record
  let bodyHash ← base64Decode bodyHash
  let signature ← base64Decode signature
  let input ← verifierInput rfcRelaxedField fields sig
  return bodyHash == (sha256 (rfcRelaxedBody body)).toList && verify key input signature

/-- The message passes. -/
def accepts (fields : List Field) (sig : Field) (body : List Bytes) : Bool :=
  verdict verify sha256 dns fields sig body == some true

end

/-! ## Reading a line back -/

theorem quotedStrings_append : ∀ {p : Bytes} {ss : List Bytes}, QUOTE ∉ p → (∀ s ∈ ss, QUOTE ∉ s) →
    quotedStrings (p ++ [SP].intercalate (ss.map quoted)) = ss
  | p, [], hp, _ => by
    rw [List.map_nil, List.intercalate_nil, List.append_nil, quotedStrings, splitOn_none hp]
    rfl
  | p, [s], hp, hss => by
    have hline : p ++ [SP].intercalate ([s].map quoted) = p ++ QUOTE :: (s ++ QUOTE :: []) := by simp [quoted, QUOTE]
    rw [hline, quotedStrings, splitOn_first hp, splitOn_first (hss s (by simp))]
    rfl
  | p, s :: s' :: ss, hp, hss => by
    have hline : p ++ [SP].intercalate ((s :: s' :: ss).map quoted) =
        p ++ QUOTE :: (s ++ QUOTE :: ([SP] ++ [SP].intercalate ((s' :: ss).map quoted))) := by simp [quoted, QUOTE]
    have hrest : quotedStrings ([SP] ++ [SP].intercalate ((s' :: ss).map quoted)) = s' :: ss :=
      quotedStrings_append (by decide) fun x hx => hss x (List.mem_cons_of_mem _ hx)
    rw [quotedStrings] at hrest
    rw [hline, quotedStrings, splitOn_first hp, splitOn_first (hss s (by simp)), between, hrest]

/-- The tags of a key record. -/
def keyTags (publicKey : Bytes) : List Tag :=
  [(ascii "v", ascii "DKIM1"), (ascii "k", ascii "rsa"), (ascii "p", publicKey)]

theorem recordKey_base64 {der : Bytes} (hne : der ≠ []) :
    recordKey (ascii "v=DKIM1; k=rsa; p=" ++ base64 der) = some der := by
  have hok : ∀ t ∈ keyTags (base64 der), TagOk t := by
    intro t ht
    simp only [keyTags, List.mem_cons, List.not_mem_nil, or_false] at ht
    rcases ht with rfl | rfl | rfl
    · exact ⟨by decide, List.all_eq_true.1 (by decide)⟩
    · exact ⟨by decide, List.all_eq_true.1 (by decide)⟩
    · exact ⟨show tagNameOk (ascii "p") = true by decide, fun b hb => isValchar_of_base64 (base64_alphabet der b hb)⟩
  have htext : ascii "v=DKIM1; k=rsa; p=" ++ base64 der = [SP].intercalate (tagTokens (keyTags (base64 der))) := by
    have hhead : ascii "v=DKIM1; k=rsa; p=" = tagText (ascii "v", ascii "DKIM1") ++ [SEMICOLON, SP] ++
        tagText (ascii "k", ascii "rsa") ++ [SEMICOLON, SP] ++ ascii "p" ++ [EQUALS] := by decide
    simp only [hhead, keyTags, tagTokens, tagText, List.intercalate_cons_cons, List.intercalate_singleton,
      List.append_assoc, List.cons_append, List.nil_append]
  have hparse : parseTags (ascii "v=DKIM1; k=rsa; p=" ++ base64 der) = some (keyTags (base64 der)) := by
    have hjoined : Joined (· = [SP]) (tagTokens (keyTags (base64 der))) ([SP].intercalate (tagTokens (keyTags (base64 der)))) :=
      joined_intercalate (S := (· = [SP])) rfl (tagTokens_cons_ne_nil _ _)
    have hparts := parseParts_joined (s := []) (by rintro s rfl; exact List.forall_mem_singleton.2 rfl) hok (by simp) hjoined
    rw [List.nil_append, ← htext] at hparts
    have hnodup : ((keyTags (base64 der)).map Prod.fst).Nodup := by
      have h : ([ascii "v", ascii "k", ascii "p"] : List Bytes).Nodup := by decide
      exact h
    have hne : keyTags (base64 der) ≠ [] := by simp [keyTags]
    have hcond : keyTags (base64 der) ≠ [] ∧ ((keyTags (base64 der)).map Prod.fst).Nodup := ⟨hne, hnodup⟩
    simp only [parseTags, hparts, Option.bind_eq_bind, Option.bind_some, if_pos hcond]
  have hkey : base64 der ≠ [] := by
    intro hnil
    have hdecode := base64Decode_base64 der
    rw [hnil] at hdecode
    exact hne (Option.some.inj hdecode).symm
  rw [recordKey, hparse]
  have hcond : ((keyTags (base64 der)).lookup (ascii "v") = none ∨
      (keyTags (base64 der)).head? = some (ascii "v", ascii "DKIM1")) ∧
        ((keyTags (base64 der)).lookup (ascii "k")).getD (ascii "rsa") = ascii "rsa" := ⟨Or.inr rfl, rfl⟩
  have hlookup : (keyTags (base64 der)).lookup (ascii "p") = some (base64 der) := rfl
  simp only [Option.bind_eq_bind, Option.bind_some, if_pos hcond, hlookup, if_neg hkey, base64Decode_base64]

/-- The line that is printed, in the DNS. -/
theorem publish_recordOf {domain selector : DnsName} (der : Bytes)
    (hshort : selector.bytes.length + domain.bytes.length ≤ 241) :
    publish (recordOf domain.bytes selector.bytes (base64 der)) (keyName selector.bytes domain.bytes) =
      some (ascii "v=DKIM1; k=rsa; p=" ++ base64 der) := by
  have hplain := plain_value (base64_alphabet der)
  obtain ⟨hflatten, -⟩ := chunks_spec (by omega : 0 < 180) (ascii "v=DKIM1; k=rsa; p=" ++ base64 der)
  have hstrings := chunks_txtStrings hplain
  have hquote : ∀ s ∈ chunks 180 (ascii "v=DKIM1; k=rsa; p=" ++ base64 der), QUOTE ∉ s := fun s hs hmem =>
    absurd ((hstrings s hs).plain QUOTE hmem) (by decide)
  have hname : QUOTE ∉ keyName selector.bytes domain.bytes ++ ascii ". IN TXT " := by
    intro hmem
    have hno : ∀ n : DnsName, QUOTE ∉ n.bytes := fun n hn => absurd (n.mem QUOTE hn) (by decide)
    simp only [keyName, List.mem_append] at hmem
    rcases hmem with ((h | h) | h) | h
    · exact hno selector h
    · exact absurd h (by decide)
    · exact hno domain h
    · exact absurd h (by decide)
  have hread : quotedStrings (recordOf domain.bytes selector.bytes (base64 der)) =
      chunks 180 (ascii "v=DKIM1; k=rsa; p=" ++ base64 der) := quotedStrings_append hname hquote
  rw [publish, hread, recordName_recordOf, hflatten]
  refine if_pos ⟨rfl, ((legalOwner_iff domain selector).2 hshort).length, List.all_eq_true.2 fun s hs => ?_⟩
  exact decide_eq_true (hstrings s hs).length

/-! ## The body -/

theorem relaxedBody_joinLines {body : List Bytes} (h : ∀ l ∈ body, CR ∉ l ∧ LF ∉ l) :
    relaxedBody (joinLines body) = rfcRelaxedBody body := by
  rw [relaxedBody, splitLines_joinLines h, List.map_append, List.map_singleton, rfcRelaxedBody]
  have hempty : (canonLine []).isEmpty = true := rfl
  rw [List.rdropWhile_concat_pos _ _ _ hempty]

end DkimLite.Rfc

namespace DkimLite
open Rust Text Rfc

section
variable {Key : Type} {env : Env Key} {config : RuntimeConfig Key} {pre post : List Header} {bodyHash : Digest}
  {signed : Signed}

/-- The tags that `sign` writes are those of a signature that is understood. -/
theorem signatureFields_tagsOf (env : Env Key) (config : RuntimeConfig Key) {headers : List Header} (bodyHash : Digest)
    (timestamp : UInt64) (b : Bytes) (hfrom : (bottomMost headers fromName).isSome = true) :
    signatureFields (tagsOf env config headers bodyHash timestamp b) =
      some (config.domain.bytes, config.selector.bytes, env.ssl.base64 bodyHash.toList, b) := by
  have hnames : hTagNames ([COLON].intercalate (hNamesOf headers)) = hNamesOf headers :=
    hTagNames_hNamesOf (by rw [hNamesOf_from hfrom]; simp)
  have hany : (hNamesOf headers).any (eqIgnoreAsciiCase fromName) = true := by
    rw [hNamesOf_from hfrom, List.any_cons, eqIgnoreAsciiCase_iff.2 rfl, Bool.true_or]
  rw [← hnames] at hany
  have hknown : (tagsOf env config headers bodyHash timestamp b).lookup (ascii "v") = some (ascii "1") ∧
      (tagsOf env config headers bodyHash timestamp b).lookup (ascii "a") = some (ascii "rsa-sha256") ∧
      (tagsOf env config headers bodyHash timestamp b).lookup (ascii "c") = some (ascii "relaxed/relaxed") ∧
      (hTagNames ([COLON].intercalate (hNamesOf headers))).any (eqIgnoreAsciiCase fromName) = true :=
    ⟨rfl, rfl, rfl, hany⟩
  have hh : (tagsOf env config headers bodyHash timestamp b).lookup (ascii "h") = some ([COLON].intercalate (hNamesOf headers)) := rfl
  have hd : (tagsOf env config headers bodyHash timestamp b).lookup (ascii "d") = some config.domain.bytes := rfl
  have hs : (tagsOf env config headers bodyHash timestamp b).lookup (ascii "s") = some config.selector.bytes := rfl
  have hbh : (tagsOf env config headers bodyHash timestamp b).lookup (ascii "bh") = some (env.ssl.base64 bodyHash.toList) := rfl
  have hb : (tagsOf env config headers bodyHash timestamp b).lookup (ascii "b") = some b := rfl
  simp only [signatureFields, Option.bind_eq_bind, hh, Option.bind_some, if_pos hknown, hd, hs, hbh, hb, Option.pure_def]

/-- **What `sign` returns is accepted**, wherever the field is put, by a receiver that finds the public key of the
signer under the name it asks for. -/
theorem accepts_of_sign (hssl : env.ssl.Documented) (hbase64 : ∀ bs, env.ssl.base64 bs = base64 bs)
    (h : sign env config (pre ++ post) bodyHash = .ok signed)
    (hfolds : ∀ name ∈ signedHeaders, ∀ f, bottomMost (pre ++ post) name = some f → foldsOnly f.value = true)
    {verify : Bytes → Bytes → Bytes → Bool} {dns : Bytes → Option Bytes} {body : List Bytes} {der record : Bytes}
    (hverify : ∀ data signature, env.ssl.signToVec config.key data = .ok signature → verify der data signature = true)
    (hdns : dns (keyName config.selector.bytes config.domain.bytes) = some record) (hkey : recordKey record = some der)
    (hbody : bodyHash = env.ssl.sha256 (rfcRelaxedBody body)) :
    accepts verify env.ssl.sha256 dns (fieldsOf onWire pre ++ signatureField signed.value :: fieldsOf onWire post)
      (signatureField signed.value) body = true := by
  have hel := eligible_of_sign h
  rw [sign_eligible hel] at h
  obtain ⟨header, domain, hfrom, -, -⟩ := hel
  obtain ⟨timestamp, signature, -, hnames, hhashed, hrsa, hvalue⟩ := signSelected_eq_ok h
  obtain ⟨hparse, hsig⟩ := foldSignature_read hssl config (pre ++ post) bodyHash timestamp
    (hssl.base64_alphabet signature) hvalue
  have hlookup := signatureTags_h config.domain.bytes config.selector.bytes timestamp.toNat (hNamesOf (pre ++ post))
    (env.ssl.base64 bodyHash.toList) (env.ssl.base64 signature)
  have hinput : verifierInput rfcRelaxedField (fieldsOf onWire pre ++ signatureField signed.value :: fieldsOf onWire post)
      (signatureField signed.value) = some signed.hashed := by
    rw [hhashed]
    refine verifierInput_eq hfrom hparse hlookup (fun f hf => ?_) (hsig _).2
    obtain ⟨name, hname, hb⟩ := List.mem_filterMap.1 hf
    exact (relaxedField_eq_rfc (hfolds name hname f hb) f.name).symm
  have hsome : (bottomMost (pre ++ post) fromName).isSome = true := by rw [bottomMost, ← List.getLast?_filter, hfrom]; rfl
  have hfields := signatureFields_tagsOf env config bodyHash timestamp (env.ssl.base64 signature) hsome
  simp only [hbase64] at hfields
  have hvalue' : (signatureField signed.value).2 = signed.value := rfl
  rw [accepts, verdict, hvalue', hparse]
  simp only [Option.bind_eq_bind, Option.bind_some, hfields, hdns, hkey, hbase64, base64Decode_base64, hinput,
    hverify _ _ hrsa, ← hbody, Option.pure_def]
  simp

end

end DkimLite
