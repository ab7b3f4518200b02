import DkimLite.Limits
import DkimLite.Unlisted

/-!
# What the log says

A message that is accepted unsigned leaves one line in the log: a fixed prefix and the text of the
check that failed. `Reason` lists these checks, one for each branch that fails a message
(`receive_header`, `src/milter.rs:472-499`; the B arm, `:449-451`; `finish_message`, `:506-511`; `sign`,
`src/dkim.rs:155-206`), with what its text is made of; `UnsignedBy` says which one failed in a run.

All texts are fixed, or end in a text of OpenSSL, but one: the comparison of domains writes the
domain of the From field. `logLine_unsigned` gives the line of every run; `same_line_iff` is the
consequence for two messages that fail at the same check, and `sender_domain_logged` two messages
whose lines differ.
-/

namespace DkimLite
open Rust Text

/-! ## The checks -/

/-- A check that leaves a message unsigned. -/
inductive Reason where
  | headerPacket | headerValueOpen | headerValueNul | headerLimit | headerNew
  | bodyBeforeStart | endBeforeStart | noPermission
  | fromCount | fromUnreadable
  /-- with the domain of the From field -/
  | fromDomain (domain : Bytes)
  | clock
  /-- the rest with what OpenSSL reported -/
  | signerInit (e : String)
  | hashHeader (e : String)
  | hashSignature (e : String)
  | rsaSign (e : String)

def Reason.text : Reason → String
  | .headerPacket => "malformed milter header packet"
  | .headerValueOpen => "malformed milter header value"
  | .headerValueNul => "malformed milter header value"
  | .headerLimit => "message header limit exceeded"
  | .headerNew => "invalid header supplied by MTA"
  | .bodyBeforeStart => "body received before message start"
  | .endBeforeStart => "end of message received before message start"
  | .noPermission => "MTA did not grant permission to add headers"
  | .fromCount => "message must contain exactly one From header"
  | .fromUnreadable => "cannot extract a single From domain"
  | .fromDomain domain => "From domain " ++ asText domain ++ " does not match configured domain"
  | .clock => "system clock is before Unix epoch"
  | .signerInit e => "cannot initialize RSA-SHA256 signer: " ++ e
  | .hashHeader e => "cannot hash header: " ++ e
  | .hashSignature e => "cannot hash DKIM-Signature: " ++ e
  | .rsaSign e => "RSA-SHA256 signing failed: " ++ e

/-- The same branch, with the same text of OpenSSL if there is one. -/
def Reason.SameCheck (r r' : Reason) : Prop := r = r' ∨ ∃ domain domain', r = .fromDomain domain ∧ r' = .fromDomain domain'

section
variable {Key : Type}

/-! ## `receive_header` -/

/-- Which branch of `receive_header` fails a message that had not failed before. -/
inductive HeaderFails (state : MessageState Key) (payload : Bytes) : Reason → Prop
  | packet : NUL ∉ payload → HeaderFails state payload .headerPacket
  | valueOpen {name rest : Bytes} : payload = name ++ NUL :: rest → NUL ∉ name → rest.getLast? ≠ some NUL →
      HeaderFails state payload .headerValueOpen
  | valueNul {name value : Bytes} : payload = name ++ NUL :: (value ++ [NUL]) → NUL ∉ name → NUL ∈ value →
      HeaderFails state payload .headerValueNul
  | limit {name value : Bytes} : payload = name ++ NUL :: (value ++ [NUL]) → NUL ∉ name → NUL ∉ value →
      (maxHeaders ≤ state.headers.length ∨
        maxHeaderBytes < saturatingAdd state.headerBytes (name.length + value.length)) →
      HeaderFails state payload .headerLimit
  | new {name value : Bytes} : payload = name ++ NUL :: (value ++ [NUL]) → NUL ∉ name → NUL ∉ value →
      ¬ (maxHeaders ≤ state.headers.length ∨
        maxHeaderBytes < saturatingAdd state.headerBytes (name.length + value.length)) →
      (∀ h : Header, ¬ (h.name = name ∧ h.value = value)) → HeaderFails state payload .headerNew

/-- `receive_header` on a payload that has a name. -/
theorem receiveHeader_named {state : MessageState Key} (herr : state.error = none) {name rest : Bytes} (hname : NUL ∉ name) :
    receiveHeader state (name ++ NUL :: rest) =
      if rest.getLast? ≠ some NUL then .ok (state.fail "malformed milter header value")
      else if rest.dropLast.contains NUL then .ok (state.fail "malformed milter header value")
      else
        let state := { state with headerBytes := saturatingAdd state.headerBytes (name.length + rest.dropLast.length) }
        if maxHeaders ≤ state.headers.length ∨ maxHeaderBytes < state.headerBytes then
          .ok (state.fail "message header limit exceeded")
        else
          match Header.new name rest.dropLast with
          | .ok header => .ok { state with headers := state.headers ++ [header] }
          | .error error => .ok (state.fail error) := by
  have hsep : (name ++ NUL :: rest).findIdx? (· == NUL) = some name.length := by
    rw [List.findIdx?_append, List.findIdx?_eq_none_iff.2 fun b hb => by simpa using fun h : b = NUL => hname (h ▸ hb)]
    simp [List.findIdx?_cons]
  have hrest : sliceFrom (name ++ NUL :: rest) (name.length + 1) = .ok rest := by
    have := sliceFrom_append (name ++ [NUL]) rest
    simpa using this
  rw [receiveHeader, if_neg (by simp [herr]), hsep]
  cases hnew : Header.new name rest.dropLast <;> simp only [sliceTo_append, hrest, Exec.ok_bind, Exec.pure_eq, hnew]

theorem Header.new_error {name value : Bytes} {error : String} (h : Header.new name value = .error error) :
    error = Reason.headerNew.text := by
  simp only [Header.new] at h
  split at h
  · cases h; rfl
  · cases h

/-- **The text recorded is that of the branch.** -/
theorem headerFails_error {state : MessageState Key} {payload : Bytes} {r : Reason} (herr : state.error = none)
    (h : HeaderFails state payload r) : ∃ st, receiveHeader state payload = .ok st ∧ st.error = some r.text := by
  cases h with
  | packet hnul =>
    have hsep : payload.findIdx? (· == NUL) = none :=
      List.findIdx?_eq_none_iff.2 fun b hb => by simpa using fun h : b = NUL => hnul (h ▸ hb)
    refine ⟨state.fail "malformed milter header packet", ?_, by rw [fail_of_none herr]; rfl⟩
    rw [receiveHeader, if_neg (by simp [herr]), hsep]
    rfl
  | valueOpen hpayload hname hlast =>
    refine ⟨state.fail "malformed milter header value", ?_, by rw [fail_of_none herr]; rfl⟩
    rw [hpayload, receiveHeader_named herr hname, if_pos hlast]
  | valueNul hpayload hname hvalue =>
    refine ⟨state.fail "malformed milter header value", ?_, by rw [fail_of_none herr]; rfl⟩
    rw [hpayload, receiveHeader_named herr hname, List.getLast?_concat, List.dropLast_concat, if_neg (by simp),
      if_pos (by simpa using hvalue)]
  | @limit name value hpayload hname hvalue hlimit =>
    refine ⟨({ state with headerBytes := saturatingAdd state.headerBytes (name.length + value.length) } : MessageState Key).fail
      "message header limit exceeded", ?_, ?_⟩
    · rw [hpayload, receiveHeader_named herr hname, List.getLast?_concat, List.dropLast_concat, if_neg (by simp),
        if_neg (by simpa using hvalue)]
      simp only [if_pos hlimit]
    · rw [fail_of_none (by exact herr)]
      rfl
  | @new name value hpayload hname hvalue hlimit hnew =>
    cases hheader : Header.new name value with
    | ok header => exact absurd (Header.new_eq_ok.1 hheader) (hnew header)
    | error error =>
      refine ⟨({ state with headerBytes := saturatingAdd state.headerBytes (name.length + value.length) } : MessageState Key).fail
        error, ?_, ?_⟩
      · rw [hpayload, receiveHeader_named herr hname, List.getLast?_concat, List.dropLast_concat, if_neg (by simp),
          if_neg (by simpa using hvalue)]
        simp only [if_neg hlimit, hheader]
      · rw [fail_of_none (by exact herr), Header.new_error hheader]

/-- A field that no branch fails is one that is kept. -/
theorem headerFails_total (state : MessageState Key) (payload : Bytes) :
    (∃ r, HeaderFails state payload r) ∨ ∃ h : Header, payload = h.wire ∧ state.Fits h := by
  by_cases hnul : NUL ∈ payload
  swap
  · exact Or.inl ⟨_, .packet hnul⟩
  obtain ⟨name, rest, rfl, hname⟩ : ∃ name rest, payload = name ++ NUL :: rest ∧ NUL ∉ name := by
    cases hsep : payload.findIdx? (· == NUL) with
    | none =>
      have := List.findIdx?_eq_none_iff.1 hsep NUL hnul
      simp at this
    | some separator =>
      obtain ⟨name, rest, hpayload, -, hname⟩ := cut_nul hsep
      exact ⟨name, rest, hpayload, hname⟩
  by_cases hlast : rest.getLast? = some NUL
  swap
  · exact Or.inl ⟨_, .valueOpen rfl hname hlast⟩
  obtain ⟨value, rfl⟩ := List.getLast?_eq_some_iff.1 hlast
  by_cases hvalue : NUL ∈ value
  · exact Or.inl ⟨_, .valueNul rfl hname hvalue⟩
  by_cases hlimit : maxHeaders ≤ state.headers.length ∨
      maxHeaderBytes < saturatingAdd state.headerBytes (name.length + value.length)
  · exact Or.inl ⟨_, .limit rfl hname hvalue hlimit⟩
  by_cases hnew : ∃ h : Header, h.name = name ∧ h.value = value
  · obtain ⟨h, rfl, rfl⟩ := hnew
    exact Or.inr ⟨h, rfl, by omega, by omega⟩
  · exact Or.inl ⟨_, .new rfl hname hvalue hlimit fun h hh => hnew ⟨h, hh⟩⟩

/-! ## `sign` -/

/-- Which branch of `sign` fails. -/
inductive SignFails (env : Env Key) (config : RuntimeConfig Key) (headers : List Header) (bodyHash : Digest) : Reason → Prop
  | fromCount : (headers.filter (·.is fromName)).length ≠ 1 → SignFails env config headers bodyHash .fromCount
  | fromUnreadable {header : Header} : headers.filter (·.is fromName) = [header] → fromDomain header.value = .ok none →
      SignFails env config headers bodyHash .fromUnreadable
  | fromDomain {header : Header} {domain : Bytes} : headers.filter (·.is fromName) = [header] →
      fromDomain header.value = .ok (some domain) → eqIgnoreAsciiCase domain config.domain.bytes = false →
      SignFails env config headers bodyHash (.fromDomain domain)
  | clock : Eligible config headers → env.now = none → SignFails env config headers bodyHash .clock
  | signerInit {e : String} : Eligible config headers → env.now.isSome = true → env.ssl.signerNew config.key = .error e →
      SignFails env config headers bodyHash (.signerInit e)
  | hashHeader {e : String} : Eligible config headers → env.now.isSome = true → env.ssl.signerNew config.key = .ok () →
      hashHeaders env.ssl config.key [] (select headers).1 = .err ("cannot hash header: " ++ e) →
      SignFails env config headers bodyHash (.hashHeader e)
  | hashSignature {e : String} {timestamp : UInt64} {hashed : Bytes} : Eligible config headers → env.now = some timestamp →
      env.ssl.signerNew config.key = .ok () → hashHeaders env.ssl config.key [] (select headers).1 = .ok hashed →
      env.ssl.signerUpdate config.key hashed
        (relaxedField dkimSignatureName (unsignedOf env config headers bodyHash timestamp)) = .error e →
      SignFails env config headers bodyHash (.hashSignature e)
  | rsaSign {e : String} {timestamp : UInt64} {hashed : Bytes} : Eligible config headers → env.now = some timestamp →
      env.ssl.signerNew config.key = .ok () → hashHeaders env.ssl config.key [] (select headers).1 = .ok hashed →
      env.ssl.signerUpdate config.key hashed
        (relaxedField dkimSignatureName (unsignedOf env config headers bodyHash timestamp)) = .ok () →
      env.ssl.signToVec config.key
        (hashed ++ relaxedField dkimSignatureName (unsignedOf env config headers bodyHash timestamp)) = .error e →
      SignFails env config headers bodyHash (.rsaSign e)

theorem digest_encodes (ssl : OpenSsl Key) (bodyHash : Digest) :
    encodeBlock ssl bodyHash.toList = .ok (ssl.base64 bodyHash.toList) :=
  encodeBlock_ok (by rw [Vector.length_toList]; omega)

theorem signFails_error {env : Env Key} {config : RuntimeConfig Key} {headers : List Header} {bodyHash : Digest} {r : Reason}
    (h : SignFails env config headers bodyHash r) : sign env config headers bodyHash = .err r.text := by
  have hencode := digest_encodes env.ssl bodyHash
  cases h with
  | fromCount hcount =>
    rw [sign]
    simp only [if_pos hcount]
    rfl
  | fromUnreadable hfilter hdomain =>
    show _ = Exec.err "cannot extract a single From domain"
    simp [sign, hfilter, hdomain]
  | fromDomain hfilter hdomain hne =>
    show _ = Exec.err ("From domain " ++ asText _ ++ " does not match configured domain")
    simp [sign, hfilter, hdomain, hne]
  | clock hel hnow =>
    rw [sign_eligible hel, signSelected]
    simp only [hnow]
    rfl
  | signerInit hel hnow hinit =>
    obtain ⟨timestamp, hnow⟩ := Option.isSome_iff_exists.1 hnow
    rw [sign_eligible hel, signSelected]
    simp only [hnow, hencode, Exec.ok_bind, hinit, orErr, Exec.err_bind]
    rfl
  | hashHeader hel hnow hinit hhash =>
    obtain ⟨timestamp, hnow⟩ := Option.isSome_iff_exists.1 hnow
    rw [sign_eligible hel, signSelected]
    simp only [hnow, hencode, Exec.ok_bind, hinit, orErr, hhash, Exec.err_bind]
    rfl
  | hashSignature hel hnow hinit hhash hupdate =>
    rw [unsignedOf] at hupdate
    rw [sign_eligible hel, signSelected, select_eq]
    rw [select_eq] at hhash
    simp only at hhash
    simp only [hnow, hencode, Exec.ok_bind, hinit, orErr, hhash, canonicalizeSignatureHeader_eq, hupdate, Exec.err_bind]
    rfl
  | rsaSign hel hnow hinit hhash hupdate hsig =>
    rw [unsignedOf] at hupdate hsig
    rw [sign_eligible hel, signSelected, select_eq]
    rw [select_eq] at hhash
    simp only at hhash
    simp only [hnow, hencode, Exec.ok_bind, hinit, orErr, hhash, canonicalizeSignatureHeader_eq, hupdate, hsig, Exec.err_bind]
    rfl

theorem hashHeaders_error {ssl : OpenSsl Key} {key : Key} : ∀ {hs : List Header} {hashed : Bytes} {error : String},
    hashHeaders ssl key hashed hs = .err error → ∃ e, error = "cannot hash header: " ++ e
  | [], _, _, h => by cases h
  | h :: hs, hashed, error, heq => by
    rw [hashHeaders, canonicalizeHeader_eq, Exec.ok_bind] at heq
    cases hupdate : ssl.signerUpdate key hashed (relaxedField h.name h.value ++ CRLF) with
    | error e =>
      rw [hupdate] at heq
      exact ⟨e, (Exec.err.inj heq).symm⟩
    | ok _ =>
      rw [hupdate] at heq
      exact hashHeaders_error heq

/-- **A failure of `sign` is one of these.** -/
theorem signFails_total {env : Env Key} (hssl : env.ssl.Documented) {config : RuntimeConfig Key} {headers : List Header}
    {bodyHash : Digest} {error : String} (h : sign env config headers bodyHash = .err error) :
    ∃ r, SignFails env config headers bodyHash r := by
  by_cases hel : Eligible config headers
  swap
  · match hfilter : headers.filter (·.is fromName) with
    | [] => exact ⟨_, .fromCount (by rw [hfilter]; simp)⟩
    | _ :: _ :: _ => exact ⟨_, .fromCount (by rw [hfilter]; simp)⟩
    | [header] =>
      obtain ⟨o, ho, -⟩ := fromDomain_spec header.value
      cases o with
      | none => exact ⟨_, .fromUnreadable hfilter ho⟩
      | some domain =>
        refine ⟨_, .fromDomain hfilter ho ?_⟩
        rw [Bool.eq_false_iff]
        intro hc
        rw [eqIgnoreAsciiCase_iff, config.domain.lowered] at hc
        exact hel ⟨header, domain, hfilter, ho, hc⟩
  rw [sign_eligible hel, signSelected] at h
  have hencode := digest_encodes env.ssl bodyHash
  cases hnow : env.now with
  | none => exact ⟨_, .clock hel hnow⟩
  | some timestamp =>
    have hsome : env.now.isSome = true := by rw [hnow]; rfl
    cases hinit : env.ssl.signerNew config.key with
    | error e => exact ⟨_, .signerInit hel hsome hinit⟩
    | ok _ =>
      cases hhash : hashHeaders env.ssl config.key [] (select headers).1 with
      | panic =>
        have := hashHeaders_safe env.ssl config.key (select headers).1 []
        rw [hhash] at this
        exact this.elim
      | err error' =>
        obtain ⟨e, rfl⟩ := hashHeaders_error hhash
        exact ⟨_, .hashHeader hel hsome hinit hhash⟩
      | ok hashed =>
        cases hupdate : env.ssl.signerUpdate config.key hashed
            (relaxedField dkimSignatureName (unsignedOf env config headers bodyHash timestamp)) with
        | error e => exact ⟨_, .hashSignature hel hnow hinit hhash hupdate⟩
        | ok _ =>
          cases hsig : env.ssl.signToVec config.key
              (hashed ++ relaxedField dkimSignatureName (unsignedOf env config headers bodyHash timestamp)) with
          | error e => exact ⟨_, .rsaSign hel hnow hinit hhash hupdate hsig⟩
          | ok sig =>
            rw [select_eq] at h hhash
            simp only at hhash
            rw [unsignedOf] at hupdate hsig
            simp only [hnow, hencode, Exec.ok_bind, hinit, orErr, hhash, canonicalizeSignatureHeader_eq, hupdate, hsig,
              encodeBlock_ok (hssl.sign_length _ _ _ hsig), Exec.pure_eq] at h
            cases h

/-! ## Runs -/

/-- The message open after `es` has failed, by the check. -/
inductive FailedBy : List (Event Key) → Reason → Prop
  | header {h : List (Event Key)} {e : Event Key} {conn : Conn Key} {opened : MessageState Key} {r : Reason} :
      after h = some conn → e.kind = some .L → openMessage e.moment conn.state = .ok opened → opened.error = none →
      HeaderFails opened e.payload r → FailedBy (h ++ [e]) r
  | body {h : List (Event Key)} {e : Event Key} {conn : Conn Key} : after h = some conn → e.kind = some .B →
      conn.state.config = none → conn.state.error = none → FailedBy (h ++ [e]) .bodyBeforeStart
  | stays {h : List (Event Key)} {e : Event Key} {conn : Conn Key} {r : Reason} : FailedBy h r → after h = some conn →
      leavesMessage conn.state.config.isSome e.packet = false → FailedBy (h ++ [e]) r

/-- **What is recorded is the text of the check.** -/
theorem failedBy_error {es : List (Event Key)} {r : Reason} (hssl : Documented es) (h : FailedBy es r) {conn : Conn Key}
    (hafter : after es = some conn) : conn.state.error = some r.text := by
  induction h generalizing conn with
  | header hprev hkind hopened herr hfails =>
    obtain ⟨conn', command, payload, frames, hprev', hpacket, hturn, -⟩ := turn_of_after hssl.last hafter
    obtain rfl := Option.some.inj (hprev.symm.trans hprev')
    obtain ⟨hcommand, hpayload⟩ := event_of_packet hpacket
    rw [hcommand] at hkind
    rw [Option.some.inj hkind] at hturn
    rw [hpayload] at hfails
    cases hturn with
    | header hopened' hstate =>
      obtain rfl := Exec.ok.inj (hopened.symm.trans hopened')
      obtain ⟨st, hst, htext⟩ := headerFails_error herr hfails
      obtain rfl := Exec.ok.inj (hst.symm.trans hstate)
      exact htext
  | body hprev hkind hconfig herr =>
    obtain ⟨conn', command, payload, frames, hprev', hpacket, hturn, -⟩ := turn_of_after hssl.last hafter
    obtain rfl := Option.some.inj (hprev.symm.trans hprev')
    rw [(event_of_packet hpacket).1] at hkind
    rw [Option.some.inj hkind] at hturn
    cases hturn with
    | body hstate =>
      rw [receiveBody_eq, hconfig, Option.isNone_none, if_pos rfl, fail_of_none herr] at hstate
      obtain rfl := Exec.ok.inj hstate
      rfl
  | @stays h e conn' r _ hprev hleaves ih =>
    have herr := ih hssl.left hprev
    have hsame := failed_stays hssl hprev (by rw [herr]; rfl) (fun x hx => by rwa [List.mem_singleton.1 hx]) hafter
    rw [hsame, herr]

/-- **Whatever is recorded, one of the checks has failed.** -/
theorem failedBy_total {es : List (Event Key)} (hssl : Documented es) {conn : Conn Key} (hafter : after es = some conn)
    (herr : conn.state.error.isSome = true) : ∃ r, FailedBy es r := by
  induction es using List.reverseRecOn generalizing conn with
  | nil => cases hafter; cases herr
  | append_singleton es e ih =>
    obtain ⟨conn', command, payload, frames, hprev, hpacket, hturn, -⟩ := turn_of_after hssl.last hafter
    obtain ⟨hkind, hpayload⟩ := event_of_packet hpacket
    -- a message that had failed before, if it was not left
    have hstays : conn'.state.error.isSome = true → leavesMessage conn'.state.config.isSome e.packet = false →
        ∃ r, FailedBy (es ++ [e]) r := by
      intro hbefore hstay
      obtain ⟨r, hr⟩ := ih hssl.left hprev hbefore
      exact ⟨r, .stays hr hprev hstay⟩
    rw [leavesMessage, ← Event.kind, hkind] at hstays
    generalize Command.of command = kind at hkind hturn hstays
    cases hturn with
    | offer => exact hstays herr rfl
    | begin => cases herr
    | @header opened state hopened hstate =>
      by_cases hbefore : opened.error = none
      · rcases headerFails_total opened e.payload with ⟨r, hr⟩ | ⟨f, hf, hfits⟩
        · exact ⟨r, .header hprev hkind hopened hbefore hr⟩
        · obtain ⟨st, hst, hreceived⟩ := receiveHeader_spec opened payload
          obtain rfl := Exec.ok.inj (hst.symm.trans hstate)
          rw [hpayload] at hf
          cases hreceived with
          | skipped hsome => rw [hbefore] at hsome; cases hsome
          | added => rw [hbefore] at herr; cases herr
          | rejected _ hno => exact absurd hfits (hno f hf)
      · rcases openMessage_eq.1 hopened with ⟨hsome, rfl⟩ | ⟨-, config, -, rfl⟩
        · exact hstays (by simpa [Option.isSome_iff_ne_none] using hbefore) (by rw [hsome]; rfl)
        · exact absurd rfl hbefore
    | body hstate =>
      by_cases hbefore : conn'.state.error = none
      · rw [receiveBody_eq] at hstate
        obtain rfl := Exec.ok.inj hstate
        cases hconfig : conn'.state.config with
        | none => exact ⟨_, .body hprev hkind hconfig hbefore⟩
        | some config => simp [hconfig, hbefore] at herr
      · exact hstays (by simpa [Option.isSome_iff_ne_none] using hbefore) rfl
    | finish => cases herr
    | abort => cases herr
    | defineMacros => exact hstays herr rfl
    | plain => exact hstays herr rfl

/-- The message that `e` ends is accepted unsigned, by the check. -/
inductive UnsignedBy (h : List (Event Key)) (e : Event Key) : Reason → Prop
  | recorded {r : Reason} : FailedBy h r → UnsignedBy h e r
  | endBeforeStart {conn : Conn Key} : after h = some conn → conn.state.error = none → conn.state.config = none →
      UnsignedBy h e .endBeforeStart
  | noPermission {conn : Conn Key} : after h = some conn → conn.state.error = none → conn.state.config.isSome = true →
      conn.actions &&& (actionAddHeader ||| actionChangeHeader) = 0 → UnsignedBy h e .noPermission
  | sign {conn : Conn Key} {config : RuntimeConfig Key} {r : Reason} : after h = some conn → conn.state.error = none →
      conn.state.config = some config → conn.actions &&& (actionAddHeader ||| actionChangeHeader) ≠ 0 →
      SignFails e.moment.env config conn.state.headers (conn.state.body.finish e.moment.env.ssl.sha256) r →
      UnsignedBy h e r

/-- The line `finish_message` writes to the log for the message that `e` ends. -/
def logLine (h : List (Event Key)) (e : Event Key) : Option String :=
  (after h).bind fun conn =>
    match finishMessage recorder e.moment.env conn.state conn.actions (written h) with
    | .ok log _ => log
    | _ => none

theorem logLine_eq {h : List (Event Key)} {e : Event Key} (hssl : e.moment.env.ssl.Documented) {conn : Conn Key}
    (hafter : after h = some conn) : logLine h e =
      (finishError e.moment.env conn.state conn.actions).map ("dkim-lite: accepting message unsigned: " ++ ·) := by
  have hok := finishMessage_ok recorder_takes hssl conn.state conn.actions (s := written h) trivial
  rw [logLine, hafter, Option.bind_some]
  cases hrun : finishMessage recorder e.moment.env conn.state conn.actions (written h) with
  | ok log t => rw [hrun] at hok; exact hok.1
  | err e t => rw [hrun] at hok; exact hok.elim
  | panic => rw [hrun] at hok; exact hok.elim
  | pending t => rw [hrun] at hok; exact hok.elim

/-- What `finish_message` records at the end of a message without an error. -/
theorem finishError_open {env : Env Key} {state : MessageState Key} {actions : UInt32} (herr : state.error = none) :
    finishError env state actions = match state.config with
      | none => some Reason.endBeforeStart.text
      | some config =>
        if actions &&& (actionAddHeader ||| actionChangeHeader) = 0 then some Reason.noPermission.text
        else match sign env config state.headers (state.body.finish env.ssl.sha256) with
          | .err error => some error
          | _ => none := by
  unfold finishError closeMessage
  cases hconfig : state.config with
  | none =>
    simp only [Option.isNone_none, if_true, fail_of_none herr, Option.isNone_some, Bool.false_eq_true, false_and, if_false]
    rfl
  | some config =>
    by_cases hperm : actions &&& (actionAddHeader ||| actionChangeHeader) = 0
    · simp only [Option.isNone_some, Bool.false_eq_true, if_false, herr, Option.isNone_none, hperm, and_self, if_true,
        fail_of_none herr]
      rfl
    · cases hsign : sign env config state.headers (state.body.finish env.ssl.sha256) <;>
        simp only [Option.isNone_some, Bool.false_eq_true, if_false, herr, hperm, and_false, hsign]

/-- **The line logged is the text of the check that failed**, and there is a line only if one did. -/
theorem logLine_unsigned {h : List (Event Key)} {e : Event Key} (hssl : Documented (h ++ [e]))
    (hafter : (after h).isSome = true) :
    (∀ r, UnsignedBy h e r → logLine h e = some ("dkim-lite: accepting message unsigned: " ++ r.text)) ∧
      ((logLine h e).isSome = true → ∃ r, UnsignedBy h e r) := by
  obtain ⟨conn, hconn⟩ := Option.isSome_iff_exists.1 hafter
  have hline := logLine_eq (e := e) hssl.last hconn
  constructor
  · intro r hr
    suffices herror : finishError e.moment.env conn.state conn.actions = some r.text by rw [hline, herror]; rfl
    cases hr with
    | recorded hfailed =>
      have herr := failedBy_error hssl.left hfailed hconn
      unfold finishError closeMessage MessageState.fail
      cases hconfig : conn.state.config <;> simp [herr]
    | endBeforeStart hconn' herr hconfig =>
      obtain rfl := Option.some.inj (hconn.symm.trans hconn')
      rw [finishError_open herr, hconfig]
    | noPermission hconn' herr hconfig hperm =>
      obtain rfl := Option.some.inj (hconn.symm.trans hconn')
      obtain ⟨config, hconfig⟩ := Option.isSome_iff_exists.1 hconfig
      rw [finishError_open herr, hconfig]
      exact if_pos hperm
    | sign hconn' herr hconfig hperm hfails =>
      obtain rfl := Option.some.inj (hconn.symm.trans hconn')
      rw [finishError_open herr, hconfig]
      simp only [if_neg hperm, signFails_error hfails]
  · intro hsome
    rw [hline, Option.isSome_map] at hsome
    by_cases herr : conn.state.error = none
    swap
    · obtain ⟨r, hr⟩ := failedBy_total hssl.left hconn (by simpa [Option.isSome_iff_ne_none] using herr)
      exact ⟨r, .recorded hr⟩
    rw [finishError_open herr] at hsome
    cases hconfig : conn.state.config with
    | none => exact ⟨_, .endBeforeStart hconn herr hconfig⟩
    | some config =>
      by_cases hperm : conn.actions &&& (actionAddHeader ||| actionChangeHeader) = 0
      · exact ⟨_, .noPermission hconn herr (by rw [hconfig]; rfl) hperm⟩
      · rw [hconfig] at hsome
        simp only [if_neg hperm] at hsome
        cases hsign : sign e.moment.env config conn.state.headers (conn.state.body.finish e.moment.env.ssl.sha256) with
        | ok signed => rw [hsign] at hsome; cases hsome
        | panic => rw [hsign] at hsome; cases hsome
        | err error =>
          obtain ⟨r, hr⟩ := signFails_total hssl.last hsign
          exact ⟨r, .sign hconn herr hconfig hperm hr⟩

/-! ## Two messages -/

def Reason.comparesDomains : Reason → Bool
  | .fromDomain _ => true
  | _ => false

/-- What `from_domain` reads in the From fields of the message open after `h`. -/
def fromDomains (h : List (Event Key)) : List (Exec (Option Bytes)) :=
  match after h with
  | some conn => (conn.state.headers.filter (·.is fromName)).map fun header => fromDomain header.value
  | none => []

theorem HeaderFails.comparesDomains {state : MessageState Key} {payload : Bytes} {r : Reason}
    (h : HeaderFails state payload r) : r.comparesDomains = false := by
  cases h <;> rfl

/-- `receive_header` and the B arm compare no domains. -/
theorem FailedBy.comparesDomains {es : List (Event Key)} {r : Reason} (h : FailedBy es r) : r.comparesDomains = false := by
  induction h with
  | header _ _ _ _ hfails => exact hfails.comparesDomains
  | body => rfl
  | stays _ _ _ ih => exact ih

/-- The domain compared is that of the only From field. -/
theorem UnsignedBy.fromDomains {h : List (Event Key)} {e : Event Key} {domain : Bytes}
    (hr : UnsignedBy h e (.fromDomain domain)) : fromDomains h = [.ok (some domain)] := by
  cases hr with
  | recorded hfailed => cases hfailed.comparesDomains
  | sign hconn _ _ _ hfails =>
    cases hfails with
    | fromDomain hfilter hdomain => simp [DkimLite.fromDomains, hconn, hfilter, hdomain]

theorem asciiChar_injective {b c : UInt8} (h : asciiChar b = asciiChar c) : b = c := by
  have hnat : ∀ b : UInt8, (asciiChar b).toNat = b.toNat :=
    forall_uint8 (P := fun b => (asciiChar b).toNat = b.toNat) (by decide +kernel)
  apply UInt8.toNat_inj.1
  rw [← hnat b, ← hnat c, h]

theorem asText_injective {v w : Bytes} (h : asText v = asText w) : v = w := by
  have hmap : v.map asciiChar = w.map asciiChar := by
    simpa [asText] using congrArg String.toList h
  exact List.map_injective_iff.2 (fun _ _ => asciiChar_injective) hmap

theorem text_fromDomain (domain : Bytes) : (Reason.fromDomain domain).text =
    "From domain " ++ asText domain ++ " does not match configured domain" := rfl

theorem fromDomain_text_inj {domain domain' : Bytes}
    (h : (Reason.fromDomain domain).text = (Reason.fromDomain domain').text) : domain = domain' := by
  rw [text_fromDomain, text_fromDomain] at h
  apply asText_injective
  exact (String.append_right_inj _).1 ((String.append_left_inj _).1 h)

/-- **When two messages that fail at the same check are logged alike**: always, unless the check
is the comparison of domains; then if and only if their From fields have the same domain. -/
theorem same_line_iff {h h' : List (Event Key)} {e e' : Event Key} {r r' : Reason} (hssl : Documented (h ++ [e]))
    (hssl' : Documented (h' ++ [e'])) (hafter : (after h).isSome = true) (hafter' : (after h').isSome = true)
    (hr : UnsignedBy h e r) (hr' : UnsignedBy h' e' r') (hcheck : r.SameCheck r') :
    logLine h e = logLine h' e' ↔ (r.comparesDomains = true → fromDomains h = fromDomains h') := by
  have hline := (logLine_unsigned hssl hafter).1 r hr
  have hline' := (logLine_unsigned hssl' hafter').1 r' hr'
  rcases hcheck with rfl | ⟨domain, domain', rfl, rfl⟩
  · constructor
    · intro _ hdomains
      cases r with
      | fromDomain domain => rw [hr.fromDomains, hr'.fromDomains]
      | _ => cases hdomains
    · intro _
      rw [hline, hline']
  · constructor
    · intro hlines _
      rw [hline, hline'] at hlines
      have htext := (String.append_right_inj _).1 (Option.some.inj hlines)
      rw [hr.fromDomains, hr'.fromDomains, fromDomain_text_inj htext]
    · intro hdomains
      have hsame := hdomains rfl
      rw [hr.fromDomains, hr'.fromDomains] at hsame
      simp only [List.cons.injEq, Exec.ok.injEq, Option.some.injEq, and_true] at hsame
      rw [hline, hline', hsame]

end

/-! ## Senders of two domains -/

/-- A message of one From field, after an offer. -/
def exampleSent (sender : Header) : List (Event Unit) :=
  [exampleOffer, exampleEvent 'M' [], exampleEvent 'L' sender.wire]

theorem exampleSent_documented (sender : Header) : Documented (exampleSent sender ++ [exampleEvent 'E' []]) := by
  intro e he
  simp only [exampleSent, exampleOffer, List.cons_append, List.nil_append, List.mem_cons, List.not_mem_nil, or_false] at he
  rcases he with rfl | rfl | rfl | rfl <;> exact exampleSsl_documented

/-- Such a message is open, holds its field, and may be signed. -/
theorem exampleSent_unsigned {sender : Header} {domain : Bytes} (hdomain : fromDomain sender.value = .ok (some domain))
    (hfrom : sender.is fromName = true)
    (hopen : ((after (exampleSent sender)).any fun conn => conn.state.error.isNone &&
      decide (conn.state.headers = [sender]) && conn.actions &&& (actionAddHeader ||| actionChangeHeader) != 0 &&
      conn.state.config.any fun config => !eqIgnoreAsciiCase domain config.domain.bytes) = true) :
    (after (exampleSent sender)).isSome = true ∧ UnsignedBy (exampleSent sender) (exampleEvent 'E' []) (.fromDomain domain) := by
  obtain ⟨conn, hconn, hopen⟩ := (Option.any_eq_true _ _).1 hopen
  simp only [Bool.and_eq_true, Option.isNone_iff_eq_none, decide_eq_true_eq, bne_iff_ne, ne_eq] at hopen
  obtain ⟨⟨⟨herr, hheaders⟩, hperm⟩, hany⟩ := hopen
  obtain ⟨config, hconfig, hne⟩ := (Option.any_eq_true _ _).1 hany
  have hfilter : conn.state.headers.filter (·.is fromName) = [sender] := by simp [hheaders, hfrom]
  exact ⟨by rw [hconn]; rfl, .sign hconn herr hconfig hperm (.fromDomain hfilter hdomain (by simpa using hne))⟩

def exampleEvil : Header := ⟨ascii "From", ascii "a@evil.example", exampleFrom.name_ok, by decide⟩
def exampleOther : Header := ⟨ascii "From", ascii "Bob <b@other.example>", exampleFrom.name_ok, by decide⟩

theorem exampleEvil_unsigned : (after (exampleSent exampleEvil)).isSome = true ∧
    UnsignedBy (exampleSent exampleEvil) (exampleEvent 'E' []) (.fromDomain (ascii "evil.example")) :=
  exampleSent_unsigned (by decide +kernel) (by decide) (by decide +kernel)

theorem exampleOther_unsigned : (after (exampleSent exampleOther)).isSome = true ∧
    UnsignedBy (exampleSent exampleOther) (exampleEvent 'E' []) (.fromDomain (ascii "other.example")) :=
  exampleSent_unsigned (by decide +kernel) (by decide) (by decide +kernel)

theorem same_line_two_senders : logLine (exampleSent exampleEvil) (exampleEvent 'E' []) =
      logLine (exampleSent exampleOther) (exampleEvent 'E' []) ↔
    (true = true → fromDomains (exampleSent exampleEvil) = fromDomains (exampleSent exampleOther)) :=
  same_line_iff (exampleSent_documented _) (exampleSent_documented _) exampleEvil_unsigned.1 exampleOther_unsigned.1
    exampleEvil_unsigned.2 exampleOther_unsigned.2 (Or.inr ⟨_, _, rfl, rfl⟩)

/-- **The domain of a From field is logged**: two messages fail at the comparison of domains, and
their lines differ. -/
theorem sender_domain_logged : ∃ (h h' : List (Event Unit)) (e e' : Event Unit) (domain domain' : Bytes),
    (Documented (h ++ [e]) ∧ (after h).isSome = true ∧ UnsignedBy h e (.fromDomain domain)) ∧
      (Documented (h' ++ [e']) ∧ (after h').isSome = true ∧ UnsignedBy h' e' (.fromDomain domain')) ∧
      logLine h e = some ("dkim-lite: accepting message unsigned: " ++
        ("From domain " ++ asText domain ++ " does not match configured domain")) ∧
      logLine h e ≠ logLine h' e' := by
  have hline := (logLine_unsigned (exampleSent_documented _) exampleEvil_unsigned.1).1 _ exampleEvil_unsigned.2
  have hline' := (logLine_unsigned (exampleSent_documented _) exampleOther_unsigned.1).1 _ exampleOther_unsigned.2
  refine ⟨_, _, _, _, _, _, ⟨exampleSent_documented _, exampleEvil_unsigned⟩,
    ⟨exampleSent_documented _, exampleOther_unsigned⟩, hline, fun hsame => ?_⟩
  rw [hline, hline'] at hsame
  have hdomains := fromDomain_text_inj ((String.append_right_inj _).1 (Option.some.inj hsame))
  revert hdomains
  decide

end DkimLite
