import DkimLite.KeyLife
import DkimLite.Message
import DkimLite.Receiver

/-!
# From a generated key to a message that verifies

Everything together: `generate` makes a key and prints a line for the DNS, a configuration file names
the key, a message comes over a connection, and a receiver checks what the MTA sends on
(`Rfc.accepts`). `signed_message_verifies` is the purpose of the program: every signature that it makes
with that configuration is accepted, with nothing in the DNS but the line that was printed.

What OpenSSL does is a hypothesis: keys are read back as they were written, and a signature made with a key
is one for its public key.
-/

namespace DkimLite
open Rust Text Rfc

section
variable {Key : Type}

/-- A signature made with a key is accepted with its public key, which is never empty. -/
structure Trusts (verify : Bytes → Bytes → Bytes → Bool) (maker : KeyMaker Key) (ssl : OpenSsl Key) : Prop where
  signature : ∀ key der data signature, maker.publicKeyToDer key = .ok der → ssl.signToVec key data = .ok signature →
    verify der data signature = true
  nonempty : ∀ key der, maker.publicKeyToDer key = .ok der → der ≠ []

/-- What is hashed for the lines of a body. -/
theorem referenceBody_lines {body : List Bytes} (hlines : ∀ l ∈ body, CR ∉ l ∧ LF ∉ l) {chunks : List Bytes}
    (hbody : chunks.flatten = joinLines body) (hlength : chunks.flatten.length ≤ usizeMax) :
    BodyCanonicalizer.referenceBody chunks.flatten = rfcRelaxedBody body := by
  have hrelaxed := hashInput_relaxed (blankRunsWithin_of_length hlength)
  have hreference : hashInput chunks = .ok (BodyCanonicalizer.referenceBody chunks.flatten) := by
    simp [hashInput, BodyCanonicalizer.updates_eq, BodyCanonicalizer.referenceBody]
  rw [hreference, Exec.ok.injEq] at hrelaxed
  rw [hrelaxed, hbody, relaxedBody_joinLines hlines]

/-- The public key of a configuration is found under the name that its signatures ask for, and checks them. -/
def Published (verify : Bytes → Bytes → Bytes → Bool) (dns : Bytes → Option Bytes) (ssl : OpenSsl Key)
    (config : RuntimeConfig Key) : Prop :=
  ∃ der record, dns (keyName config.selector.bytes config.domain.bytes) = some record ∧ recordKey record = some der ∧
    ∀ data signature, ssl.signToVec config.key data = .ok signature → verify der data signature = true

/-- The line that `generate` printed publishes the key. -/
theorem published_of_left {ι Dir : Type} {resolve : Bytes → Dir} {env : KeygenEnv Key} {options : GenerateOptions} {i : ι}
    {g : GeneratedKey} {s : Disk Dir ι} (hleft : KeyLeft resolve env options i g s)
    (hbase64 : ∀ bs, env.ssl.base64 bs = base64 bs) {verify : Bytes → Bytes → Bytes → Bool} {ssl : OpenSsl Key}
    (htrusts : Trusts verify env.maker ssl) (hshort : g.selector.bytes.length + g.domain.bytes.length ≤ 241)
    {config : RuntimeConfig Key} (hdomain : config.domain = g.domain) (hselector : config.selector = g.selector)
    (hkey : generateRsa env.maker options.bits = .ok config.key) : Published verify (publish g.dnsRecord) ssl config := by
  obtain ⟨⟨publicDer, hprepare, hgenerated⟩, -⟩ := hleft
  obtain ⟨key, hmade, -, hder, -⟩ := prepare_key hprepare
  obtain rfl : key = config.key := Except.ok.inj (hmade.symm.trans hkey)
  have hrecord := generated_ok hgenerated
  rw [hbase64] at hrecord
  refine ⟨publicDer, _, ?_, recordKey_base64 (htrusts.nonempty _ _ hder), fun data signature hsign =>
    htrusts.signature _ _ _ _ hder hsign⟩
  rw [hrecord, hdomain, hselector]
  exact publish_recordOf publicDer hshort

/-- A message, and what a receiver makes of it who finds the key that was active when it began. -/
theorem message_verifies {h mid : List (Event Key)} {start e : Event Key} {conn : Conn Key} {config : RuntimeConfig Key}
    (hssl : Documented (h ++ start :: mid ++ [e])) (hworks : e.moment.env.Works)
    (hbase64 : ∀ bs, e.moment.env.ssl.base64 bs = base64 bs) (hstart : start.Starts h)
    (hactive : start.moment.active = some config) (hmid : ∀ x ∈ mid, x.inside = true) (hend : e.kind = some .E)
    (hconn : after (h ++ start :: mid) = some conn) {body : List Bytes} (hlines : ∀ l ∈ body, CR ∉ l ∧ LF ∉ l)
    (hbody : (payloadsOf .B (start :: mid)).flatten = joinLines body) (hlength : (joinLines body).length ≤ usizeMax)
    {verify : Bytes → Bytes → Bytes → Bool} {dns : Bytes → Option Bytes}
    (hpublished : Published verify dns e.moment.env.ssl config) :
    ∃ frames, Answered (h ++ start :: mid) e frames ∧
      (∀ headers, Acceptable (payloadsOf .L (start :: mid)) headers →
        conn.actions &&& (actionAddHeader ||| actionChangeHeader) ≠ 0 → Eligible config headers →
          ∃ f ∈ frames, f.isSignature = true) ∧
      ∀ f ∈ frames, f.isSignature = true → ∃ headers value, Acceptable (payloadsOf .L (start :: mid)) headers ∧
        f = signatureFrame conn.actions value ∧
          ∀ pre post, headers = pre ++ post →
            (∀ name ∈ signedHeaders, ∀ field, bottomMost headers name = some field → foldsOnly field.value = true) →
              accepts verify e.moment.env.ssl.sha256 dns
                (fieldsOf onWire pre ++ signatureField value :: fieldsOf onWire post) (signatureField value) body = true := by
  obtain ⟨der, record, hdns, hrecord, hverify⟩ := hpublished
  obtain ⟨config', hactive', hgathers⟩ := message_gathers hssl.left hstart hmid hconn
  obtain rfl : config = config' := Option.some.inj (hactive.symm.trans hactive')
  obtain ⟨frames, hanswered, hframes⟩ := finish_of_answered hssl hend hconn
  obtain ⟨hiff, hall⟩ := gathers_finish hssl.last hworks hgathers hframes
  refine ⟨frames, hanswered, fun headers hacc hperm hel => hiff.2 ⟨headers, hacc, hperm, hel⟩, fun f hf hsig => ?_⟩
  obtain ⟨headers, signed, hacc, hsign, hframe, -⟩ := hall f hf hsig
  refine ⟨headers, signed.value, hacc, hframe, ?_⟩
  rintro pre post rfl hfolds
  rw [referenceBody_lines hlines hbody (hbody ▸ hlength)] at hsign
  exact accepts_of_sign hssl.last hbase64 hsign hfolds hverify hdns hrecord rfl

/-- **What is signed verifies.** Let `generate` have returned `g`, among other runs of it and with any calls
failing, and let a configuration file that names `g` have been loaded. Take any message of a connection,
after any history, which starts under this configuration and has the body `body`, of lines that end in CRLF,
no part of which comes with E. If it is eligible, it is signed; and when it is signed, a receiver that finds the
line of `g` in the DNS accepts it, wherever among the fields the MTA has put the signature, if the fields that
are signed are folded legally. -/
theorem signed_message_verifies {ι Dir : Type} [DecidableEq ι] [DecidableEq Dir] {resolve : Bytes → Dir}
    (env : ι → KeygenEnv Key) (options : ι → GenerateOptions) {s₀ : Disk Dir ι} (h₀ : Unclaimed s₀)
    {sys : GenerateSystem Dir ι} (hruns : Generations resolve ⟨s₀, fun i => generate (env i) (options i)⟩ sys) {i : ι}
    {g : GeneratedKey} (hret : sys.progs i = .ret (.ok g)) (hbase64 : ∀ bs, (env i).ssl.base64 bs = base64 bs)
    (hshort : g.selector.bytes.length + g.domain.bytes.length ≤ 241)
    -- the configuration
    (hback : (env i).ReadsBack) {files : Files} (hfiles : files.On resolve sys.world) {path : Bytes} {input : List Char}
    (hinput : files.readToString path = .ok input) {entries : List Entry} (hformed : WellFormed (lines input) entries)
    (hnames : NamesKey g entries) {config : RuntimeConfig Key} (hload : load files (env i).ssl (env i).keys path = .ok config)
    -- the message
    {h mid : List (Event Key)} {start e : Event Key} (hssl : Documented (h ++ start :: mid ++ [e]))
    (hworks : e.moment.env.Works) (hbase64' : ∀ bs, e.moment.env.ssl.base64 bs = base64 bs) (hstart : start.Starts h)
    (hactive : start.moment.active = some config) (hmid : ∀ x ∈ mid, x.inside = true) (hend : e.kind = some .E)
    (hrun : (after (h ++ start :: mid)).isSome = true) {body : List Bytes} (hlines : ∀ l ∈ body, CR ∉ l ∧ LF ∉ l)
    (hempty : e.payload = []) (hbody : (payloadsOf .B (start :: mid)).flatten ++ e.payload = joinLines body)
    (hlength : (joinLines body).length ≤ usizeMax)
    -- the receiver
    {verify : Bytes → Bytes → Bytes → Bool} (htrusts : Trusts verify (env i).maker e.moment.env.ssl) :
    ∃ frames, Answered (h ++ start :: mid) e frames ∧
      (∀ headers, Acceptable (payloadsOf .L (start :: mid)) headers →
        (agreed (h ++ start :: mid)).1 &&& (actionAddHeader ||| actionChangeHeader) ≠ 0 → Eligible config headers →
          ∃ f ∈ frames, f.isSignature = true) ∧
      ∀ f ∈ frames, f.isSignature = true → ∃ headers value, Acceptable (payloadsOf .L (start :: mid)) headers ∧
        f = signatureFrame (agreed (h ++ start :: mid)).1 value ∧
          ∀ pre post, headers = pre ++ post →
            (∀ name ∈ signedHeaders, ∀ field, bottomMost headers name = some field → foldsOnly field.value = true) →
              accepts verify e.moment.env.ssl.sha256 (publish g.dnsRecord)
                (fieldsOf onWire pre ++ signatureField value :: fieldsOf onWire post) (signatureField value) body = true := by
  have hleft := generations_leave env options h₀ hruns hret
  obtain ⟨config', hload', hdomain, hselector, hkey⟩ := loads_of_left hleft hback hfiles hinput hformed hnames
  obtain rfl : config' = config := Except.ok.inj (hload'.symm.trans hload)
  have hpublished := published_of_left hleft hbase64 htrusts hshort hdomain hselector hkey
  obtain ⟨conn, hconn⟩ := Option.isSome_iff_exists.1 hrun
  rw [hempty, List.append_nil] at hbody
  rw [← (run_inv hssl.left hconn).actions]
  exact message_verifies hssl hworks hbase64' hstart hactive hmid hend hconn hlines hbody hlength hpublished

end

/-! ## An example -/

/-- A field that is folded, as the MTA hands it over. -/
def exampleSubject : Header := ⟨ascii "Subject", ascii "folded" ++ [LF, TAB] ++ ascii "text", by decide, by decide⟩

/-- The key at `/k`, as it is loaded. -/
theorem exampleNaming_loads_disk : load (filesOn id exampleDisk exampleNaming) exampleKeygen.ssl exampleKeygen.keys [] =
    .ok exampleNamed := by
  decide +kernel

def exampleNamedEvent (command : Char) (payload : Bytes) : Event Unit :=
  ⟨⟨some exampleNamed, exampleEnv⟩, byte command :: payload⟩

/-- After an offer and a message whose field had no NUL. -/
def exampleBefore : List (Event Unit) :=
  [exampleOffer, exampleNamedEvent 'M' [], exampleNamedEvent 'L' (ascii "From"), exampleNamedEvent 'E' []]

/-- The fields, and a body of two lines in three chunks. -/
def exampleInside : List (Event Unit) :=
  [exampleNamedEvent 'L' exampleFrom.wire, exampleNamedEvent 'L' exampleSubject.wire, exampleNamedEvent 'B' (ascii "Hel"),
    exampleNamedEvent 'B' (ascii "lo " ++ [CR]), exampleNamedEvent 'B' ([LF] ++ CRLF)]

/-- The only key signs everything alike. -/
def exampleVerify (der _data signature : Bytes) : Bool := der == exampleDer && signature == List.replicate 256 7

theorem exampleVerify_trusts : Trusts exampleVerify exampleKeygen.maker exampleSsl where
  signature := by
    rintro _ _ _ _ ⟨⟩ ⟨⟩
    simp [exampleVerify]
  nonempty := by
    rintro _ _ ⟨⟩ hnil
    have hlength := length_exampleDer
    rw [hnil] at hlength
    cases hlength

theorem signed_message_verifies_example : ∃ (g : GeneratedKey) (value : Bytes),
    accepts exampleVerify exampleSsl.sha256 (publish g.dnsRecord)
      (signatureField value :: fieldsOf onWire [exampleFrom, exampleSubject]) (signatureField value)
        [ascii "Hello ", []] = true := by
  obtain ⟨g, sys, hruns, hret, hworld, hg⟩ := example_generation
  obtain ⟨entries, hformed, hnames⟩ := exampleNaming_names hg
  obtain ⟨hdomain, hselector, -⟩ := generated_names hg
  have hssl : Documented (exampleBefore ++ exampleNamedEvent 'M' [] :: exampleInside ++ [exampleNamedEvent 'E' []]) := by
    intro e he
    simp only [exampleBefore, exampleInside, List.mem_append, List.mem_cons, List.not_mem_nil, or_false] at he
    rcases he with ((rfl | rfl | rfl | rfl) | rfl | rfl | rfl | rfl | rfl | rfl) | rfl <;> exact exampleSsl_documented
  have hinside : ∀ x ∈ exampleInside, x.inside = true := List.all_eq_true.1 (by decide)
  have hshort : g.selector.bytes.length + g.domain.bytes.length ≤ 241 := by rw [hdomain, hselector]; decide
  obtain ⟨frames, -, hsigned, hverifies⟩ := signed_message_verifies (fun _ => exampleKeygen)
    (fun _ => exampleOptions "Example.COM." "S1") ⟨fun _ _ h => (by cases h), fun _ _ h => (by cases h)⟩ hruns hret
    (fun _ => rfl) hshort (fun _ _ _ => rfl) (filesOn_on id sys.world exampleNaming)
    (show (filesOn id sys.world exampleNaming).readToString [] = .ok exampleNaming from rfl) hformed hnames
    (hworld ▸ exampleNaming_loads_disk) hssl exampleEnv_works
    (fun _ => rfl) (Or.inl rfl) rfl hinside rfl (by decide +kernel)
    (show ∀ l ∈ ([ascii "Hello ", []] : List Bytes), CR ∉ l ∧ LF ∉ l by decide) rfl (by decide) (by decide)
    exampleVerify_trusts
  obtain ⟨f, hf, hsig⟩ := hsigned [exampleFrom, exampleSubject] ⟨by decide, by decide, by decide⟩ (by decide +kernel)
    (eligible_iff.2 ⟨exampleFrom, by decide, by decide +kernel⟩)
  obtain ⟨headers, value, hacc, -, haccepts⟩ := hverifies f hf hsig
  obtain rfl : headers = [exampleFrom, exampleSubject] := map_wire_inj (hacc.wire.symm.trans (by decide))
  refine ⟨g, value, haccepts [] [exampleFrom, exampleSubject] rfl fun name _ field hfield => ?_⟩
  have hall : ∀ f ∈ [exampleFrom, exampleSubject], foldsOnly f.value = true := by decide
  exact hall field (bottomMost_eq_some hfield).1

end DkimLite
