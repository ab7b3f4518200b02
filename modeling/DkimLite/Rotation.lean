import DkimLite.DaemonConnections
import DkimLite.EndToEnd
import DkimLite.Unlisted

/-!
# Messages of a daemon that is reloaded

The key may change while a message is on its way. `daemon_verifies`: however the threads, the reloads
and the other connections are interleaved with it, a message is signed with the configuration that was
active when it began, and a receiver accepts it as long as the DNS still has the key of that one,
whichever is active by then.
-/

namespace DkimLite
open Rust Text Rfc

section
variable {ι Key : Type} [DecidableEq ι] {n : Nat} {listener : Listener} {debugStr : List Char → String} {path : Bytes}
  {ssl : OpenSsl Key} {keys : KeyFormat Key} {initial : RuntimeConfig Key} {files : Files} {d t u : Daemon ι Key n}
  {es : List (DaemonEvent ι Key n)}

/-! ## A message in a run -/

/-- The payloads of the packets with a command. -/
def payloadsIn (kind : Command) (packets : List (Env Key × Bytes)) : List Bytes :=
  (packets.filter fun p => kindOf p.2 = some kind).map fun p => p.2.tail

theorem payloadsIn_heard (kind : Command) (h : List (Event Key)) :
    payloadsIn kind (h.map fun e => (e.moment.env, e.packet)) = payloadsOf kind h := by
  simp only [payloadsIn, payloadsOf, List.filter_map, List.map_map]
  rfl

variable (listener debugStr path ssl keys initial files) in
/-- A message is arriving on connection `c`: the daemon was `t` when it began, and `packets` have come
since. -/
inductive Arriving (c : ι) : List (DaemonEvent ι Key n) → Daemon ι Key n → List (Env Key × Bytes) → Prop
  | since (before later : List (DaemonEvent ι Key n)) {t : Daemon ι Key n} {i : Fin n} {env : Env Key} {start : Bytes}
      (hrun : runs (Daemon.step listener debugStr path ssl keys) (Daemon.start initial files) before = some t)
      (hstarts : kindOf start = some .M ∨
        kindOf start = some .L ∧ ∀ conn out, t.conns c = .ok (.again conn) out → conn.state.config = none)
      (hinner : ∀ p ∈ later.filterMap (DaemonEvent.packetOf? c),
        kindOf p.2 ≠ some .M ∧ kindOf p.2 ≠ some .A ∧ kindOf p.2 ≠ some .E) :
      Arriving c (before ++ .packet i c env start :: later) t ((env, start) :: later.filterMap (DaemonEvent.packetOf? c))

omit [DecidableEq ι] in
/-- What comes while the connection goes on and the message does not end belongs to the message. -/
theorem inside_of_after {h mid : List (Event Key)} (hssl : Documented (h ++ mid)) (hafter : (after (h ++ mid)).isSome = true)
    (hinner : ∀ e ∈ mid, e.boundary = false) : ∀ e ∈ mid, e.inside = true := by
  intro e he
  obtain ⟨pre, post, rfl⟩ := List.append_of_mem he
  have hthere : h ++ (pre ++ e :: post) = h ++ pre ++ [e] ++ post := by simp
  rw [hthere] at hssl hafter
  obtain ⟨conn, hconn⟩ := Option.isSome_iff_exists.1 (after_left hssl hafter)
  obtain ⟨conn', command, payload, frames, -, hpacket, hturn, -⟩ := turn_of_after hssl.left.last hconn
  obtain ⟨hkind, hpayload⟩ := event_of_packet hpacket
  have hboundary := hinner e he
  unfold Event.inside
  unfold Event.boundary at hboundary
  rw [hkind] at hboundary ⊢
  generalize Command.of command = kind at hturn hboundary ⊢
  cases hturn with
  | offer hoffer =>
    rw [hpayload]
    cases hread : readOffer payload with
    | none =>
      rw [negotiate_of_none hread] at hoffer
      cases hoffer
    | some offer => rfl
  | begin _ => simp at hboundary
  | finish _ => simp at hboundary
  | abort => simp at hboundary
  | header _ _ => rfl
  | body _ => rfl
  | defineMacros => rfl
  | plain => rfl

/-- A message in a run is a message that its connection has heard. -/
theorem Arriving.heard {c : ι} {packets : List (Env Key × Bytes)}
    (hmessage : Arriving listener debugStr path ssl keys initial files c es t packets)
    (hrun : runs (Daemon.step listener debugStr path ssl keys) (Daemon.start initial files) es = some d)
    (hssl : DocumentedPackets es) {conn : Conn Key} {out : Bytes} (hwaits : d.conns c = .ok (.again conn) out) :
    ∃ h start mid, d.conns c = runOf (h ++ start :: mid) ∧ Documented (h ++ start :: mid) ∧
      after (h ++ start :: mid) = some conn ∧ start.Starts h ∧ start.moment.active = some t.monitor.active ∧
        (∀ x ∈ mid, x.inside = true) ∧ (start :: mid).map (fun e => (e.moment.env, e.packet)) = packets := by
  cases hmessage with
  | @since before later _ i env start hbefore hstarts hinner =>
    obtain ⟨h, hconn₀, hheard₀⟩ := heard_run hbefore c
    rw [← List.singleton_append, ← List.append_assoc] at hrun hssl
    obtain ⟨v, hv, hlater⟩ := runs_append.1 hrun
    obtain ⟨t', ht', hstep⟩ := runs_snoc.1 hv
    obtain rfl : t = t' := Option.some.inj (hbefore.symm.trans ht')
    have hbegun : Heard listener debugStr path ssl keys initial files c (before ++ [.packet i c env start])
        (h ++ [⟨⟨some t.monitor.active, env⟩, start⟩]) := hheard₀.packet hbefore hconn₀
    obtain ⟨mid, hconn, hheard⟩ := hbegun.more hv (conns_packet hstep hconn₀) hlater
    have hassoc : h ++ [⟨⟨some t.monitor.active, env⟩, start⟩] ++ mid = h ++ ⟨⟨some t.monitor.active, env⟩, start⟩ :: mid := by
      simp
    have hdoc := hheard.documented hssl
    have hpackets : mid.map (fun e => (e.moment.env, e.packet)) = later.filterMap (DaemonEvent.packetOf? c) := by
      have hall := hheard.packets
      rw [List.map_append, List.filterMap_append, hbegun.packets] at hall
      exact List.append_cancel_left hall
    have hafter : after (h ++ [⟨⟨some t.monitor.active, env⟩, start⟩] ++ mid) = some conn := by
      rw [after, ← hconn, hwaits]
    have hmid : ∀ x ∈ mid, x.boundary = false := by
      intro x hx
      obtain ⟨hM, hA, hE⟩ := hinner (x.moment.env, x.packet) (hpackets ▸ List.mem_map_of_mem hx)
      simp only [Event.boundary, Event.kind, hM, hA, hE, decide_false, Bool.or_self]
    have hinside := inside_of_after hdoc (by rw [hafter]; rfl) hmid
    rw [hassoc] at hconn hdoc hafter
    have hstarts : Event.Starts h ⟨⟨some t.monitor.active, env⟩, start⟩ := by
      rcases hstarts with hM | ⟨hL, hnone⟩
      · exact Or.inl hM
      · refine Or.inr ⟨hL, ?_⟩
        obtain ⟨conn₀, hafter₀⟩ := Option.isSome_iff_exists.1 (after_left hdoc (by rw [hafter]; rfl))
        rw [← (run_inv hdoc.left hafter₀).config]
        exact hnone conn₀ _ (hconn₀.trans (runOf_of_after hafter₀))
    exact ⟨h, _, mid, hconn, hdoc, hafter, hstarts, rfl, hinside, by rw [List.map_cons, hpackets]⟩

/-! ## Its end -/

/-- **Every message that a daemon signs verifies.** A message is arriving on connection `c`, and its end
comes with its `E`, which has no part of the body; the body is of lines that end in CRLF. OpenSSL behaves as
documented, and works at the end. Whatever else happened in the run, the message is signed if it is eligible
under the configuration that was active when it began, with the key of that configuration; and a receiver who
finds that key in the DNS accepts it, if the fields that are signed are folded legally. -/
theorem daemon_verifies {i : Fin n} {c : ι} {env : Env Key} {packets : List (Env Key × Bytes)}
    (hrun : runs (Daemon.step listener debugStr path ssl keys) (Daemon.start initial files) es = some d)
    (hmessage : Arriving listener debugStr path ssl keys initial files c es t packets)
    {conn : Conn Key} {out : Bytes} (hwaits : d.conns c = .ok (.again conn) out)
    (hstep : d.step listener debugStr path ssl keys (.packet i c env [byte 'E']) = some u)
    (hssl : DocumentedPackets (es ++ [.packet i c env [byte 'E']])) (hworks : env.Works)
    (hbase64 : ∀ bs, env.ssl.base64 bs = base64 bs) {body : List Bytes} (hlines : ∀ l ∈ body, CR ∉ l ∧ LF ∉ l)
    (hbody : (payloadsIn .B packets).flatten = joinLines body) (hlength : (joinLines body).length ≤ usizeMax)
    {verify : Bytes → Bytes → Bytes → Bool} {dns : Bytes → Option Bytes}
    (hpublished : Published verify dns env.ssl t.monitor.active) :
    ∃ frames, outputOf (u.conns c) = out ++ encodeAll frames ∧ (∀ f ∈ frames, f.Proper) ∧
      (∀ headers, Acceptable (payloadsIn .L packets) headers →
        conn.actions &&& (actionAddHeader ||| actionChangeHeader) ≠ 0 → Eligible t.monitor.active headers →
          ∃ f ∈ frames, f.isSignature = true) ∧
      ∀ f ∈ frames, f.isSignature = true → ∃ headers value, Acceptable (payloadsIn .L packets) headers ∧
        f = signatureFrame conn.actions value ∧
          ∀ pre post, headers = pre ++ post →
            (∀ name ∈ signedHeaders, ∀ field, bottomMost headers name = some field → foldsOnly field.value = true) →
              accepts verify env.ssl.sha256 dns (fieldsOf onWire pre ++ signatureField value :: fieldsOf onWire post)
                (signatureField value) body = true := by
  obtain ⟨h, start, mid, hconn, hdoc, hafter, hstarts, hactive, hinside, rfl⟩ := hmessage.heard hrun hssl.left hwaits
  rw [payloadsIn_heard] at hbody ⊢
  have hend : Documented (h ++ start :: mid ++ [⟨⟨some d.monitor.active, env⟩, [byte 'E']⟩]) := by
    intro e he
    rcases List.mem_append.1 he with he | he
    · exact hdoc e he
    · obtain rfl := List.mem_singleton.1 he
      exact hssl i c env [byte 'E'] (by simp)
  obtain ⟨frames, ⟨hwritten, hproper⟩, hsigned, hverifies⟩ :=
    message_verifies hend hworks hbase64 hstarts hactive hinside rfl hafter hlines hbody hlength hpublished
  refine ⟨frames, ?_, hproper, hsigned, hverifies⟩
  rw [conns_packet hstep hconn]
  have hout : written (h ++ start :: mid) = out := by rw [written, ← hconn, hwaits]; rfl
  rw [← hout]
  exact hwritten

end

/-! ## An example -/

/-- The actions of a connection that waits for a packet. -/
def waitingActions : Outcome String Bytes (Flow (Conn Unit) Unit) → Option UInt32
  | .ok (.again conn) _ => some conn.actions
  | _ => none

theorem waitingActions_some {o : Outcome String Bytes (Flow (Conn Unit) Unit)} {actions : UInt32}
    (h : waitingActions o = some actions) : ∃ conn out, o = .ok (.again conn) out ∧ conn.actions = actions := by
  unfold waitingActions at h
  split at h
  · exact ⟨_, _, rfl, Option.some.inj h⟩
  · cases h

theorem exampleConfig_published :
    Published exampleVerify (publish (recordOf exampleConfig.domain.bytes exampleConfig.selector.bytes (base64 exampleDer)))
      exampleSsl exampleConfig :=
  ⟨exampleDer, _, publish_recordOf exampleDer (by decide), recordKey_base64 (exampleVerify_trusts.nonempty () _ rfl),
    fun data signature => exampleVerify_trusts.signature () exampleDer data signature rfl⟩

/-- It is signed under the configuration that it began with, which is no longer active. -/
theorem daemon_verifies_example : ∃ (d : Daemon Nat Unit 1) (value : Bytes),
    d.monitor.active.domain.bytes = ascii "example.org" ∧
      accepts exampleVerify exampleSsl.sha256
        (publish (recordOf exampleConfig.domain.bytes exampleConfig.selector.bytes (base64 exampleDer)))
        (signatureField value :: fieldsOf onWire [exampleFrom]) (signatureField value) [] = true := by
  have hruns : (runs (Daemon.step .unix String.ofList [] exampleSsl (exampleKeys 2048))
      (Daemon.start exampleConfig (exampleFiles "example.com")) exampleRotating).any (fun d =>
        decide (d.monitor.active.domain.bytes = ascii "example.org") && decide (waitingActions (d.conns 7) = some 0x11) &&
          (d.step .unix String.ofList [] exampleSsl (exampleKeys 2048) (.packet (Fin.last 0) 7 exampleEnv [byte 'E'])).isSome) =
            true := by decide +kernel
  obtain ⟨d, hrun, hd⟩ := (Option.any_eq_true _ _).1 hruns
  simp only [Bool.and_eq_true, decide_eq_true_eq] at hd
  obtain ⟨⟨hdomain, hactions⟩, hstep⟩ := hd
  obtain ⟨conn, out, hwaits, hactions⟩ := waitingActions_some hactions
  obtain ⟨u, hstep⟩ := Option.isSome_iff_exists.1 hstep
  have hmessage : Arriving .unix String.ofList [] exampleSsl (exampleKeys 2048) exampleConfig (exampleFiles "example.com") 7
      exampleRotating _ _ :=
    .since (exampleServed.take 10) (exampleRotating.drop 11) rfl (Or.inl rfl) (by decide)
  obtain ⟨frames, -, -, hsigned, hverifies⟩ := daemon_verifies hrun hmessage hwaits hstep
    (documented_example (by simp [exampleRotating, exampleServed])) exampleEnv_works (fun _ => rfl)
    (show ∀ l ∈ ([] : List Bytes), CR ∉ l ∧ LF ∉ l by simp) rfl (by decide) exampleConfig_published
  obtain ⟨f, hf, hsig⟩ := hsigned [exampleFrom] ⟨by decide, by decide, by decide⟩ (by rw [hactions]; decide)
    (eligible_iff.2 ⟨exampleFrom, by decide, by decide +kernel⟩)
  obtain ⟨headers, value, hacc, -, haccepts⟩ := hverifies f hf hsig
  obtain rfl : headers = [exampleFrom] := map_wire_inj (hacc.wire.symm.trans (by decide))
  refine ⟨d, value, hdomain, haccepts [] [exampleFrom] rfl fun name _ field hfield => ?_⟩
  have hall : ∀ f ∈ [exampleFrom], foldsOnly f.value = true := by decide
  exact hall field (bottomMost_eq_some hfield).1

end DkimLite
