import DkimLite.Permission
import DkimLite.Rust.Machine

/-!
# An MTA on a connection (`src/milter.rs:381-470, 576-607`)

The other side of the protocol, as an MTA keeps it: it offers its terms, takes what comes back as agreed,
sends one command after another, and waits after each whose reply it has not been excused from. Commands
that are not answered are not waited for, so any number of them may be on the way.

| here | there |
| --- | --- |
| `MtaCommand`, `Stage` | what may be sent; `Stage.noReply` is the MTA's own table of the flags |
| `Mta.send`, `Mta.receive` | the MTA; a frame it has no use for leaves it `outOfStep` for good |
| `Session` | the two sides and what is on its way between them |
| `Session.output` | written by the loop (`written`) and not yet read by the MTA |

`session_in_step`: whoever moves when, the two never lose step, they hold the same terms whenever the MTA
is not waiting, and every message gets its own verdict. `session_answers`: no wait is for ever.
-/

namespace DkimLite
open Rust Text

/-! ## The MTA -/

/-- The commands that `c` answers. -/
inductive Stage where
  | connect | helo | mail | rcpt | data | unknown | header | endOfHeaders | body
deriving DecidableEq

def Stage.letter : Stage → UInt8
  | .connect => byte 'C'
  | .helo => byte 'H'
  | .mail => byte 'M'
  | .rcpt => byte 'R'
  | .data => byte 'T'
  | .unknown => byte 'U'
  | .header => byte 'L'
  | .endOfHeaders => byte 'N'
  | .body => byte 'B'

/-- The flag under which it is not answered. -/
def Stage.noReply : Stage → UInt32
  | .header => 0x80
  | .connect => 0x1000
  | .helo => 0x2000
  | .mail => 0x4000
  | .rcpt => 0x8000
  | .data => 0x10000
  | .unknown => 0x20000
  | .endOfHeaders => 0x40000
  | .body => 0x80000

inductive MtaCommand where
  | offer (version actions protocol : UInt32)
  | stage (s : Stage) (payload : Bytes)
  | macros (payload : Bytes)
  | abort (payload : Bytes)
  | endOfMessage (payload : Bytes)
  | quit
deriving DecidableEq

def MtaCommand.packet : MtaCommand → Bytes
  | .offer version actions protocol => byte 'O' :: (toBeBytes version ++ toBeBytes actions ++ toBeBytes protocol)
  | .stage s payload => s.letter :: payload
  | .macros payload => byte 'D' :: payload
  | .abort payload => byte 'A' :: payload
  | .endOfMessage payload => byte 'E' :: payload
  | .quit => [byte 'Q']

/-- Not waited for, under the flags agreed on. -/
def MtaCommand.silent (protocol : UInt32) : MtaCommand → Bool
  | .stage s _ => protocol &&& s.noReply ≠ 0
  | .macros _ | .abort _ => true
  | .offer _ _ _ | .endOfMessage _ | .quit => false

/-- What the MTA waits for. -/
inductive Awaited where
  | nothing
  | terms (version actions protocol : UInt32)
  | continuation
  | verdict (added : List (Bytes × Bytes))
  | outOfStep
deriving DecidableEq

def MtaCommand.awaits : MtaCommand → Awaited
  | .offer version actions protocol => .terms version actions protocol
  | .stage _ _ => .continuation
  | .endOfMessage _ => .verdict []
  | .macros _ | .abort _ | .quit => .nothing

structure Mta where
  /-- the actions and the protocol flags -/
  agreed : UInt32 × UInt32 := (0, 0)
  awaiting : Awaited := .nothing
  /-- for each message that was ended, the fields it was told to add -/
  verdicts : List (List (Bytes × Bytes)) := []
  gone : Bool := false

def Mta.send (mta : Mta) (c : MtaCommand) : Mta :=
  { mta with awaiting := if c.silent mta.agreed.2 then .nothing else c.awaits, gone := decide (c = .quit) }

/-- The field that a frame has the MTA add: `i` with an index, `h` without. -/
def additionOf (actions : UInt32) (f : Frame) : Option (Bytes × Bytes) :=
  let strings :=
    if f.command = byte 'i' ∧ actions &&& actionChangeHeader ≠ 0 ∧ 4 ≤ f.payload.length then some (f.payload.drop 4)
    else if f.command = byte 'h' ∧ actions &&& actionAddHeader ≠ 0 then some f.payload
    else none
  match strings.bind cStrings with
  | some [name, value] => some (name, value)
  | _ => none

/-- The terms are taken only if they are no more than was offered. -/
def Mta.receive (mta : Mta) (f : Frame) : Mta :=
  match mta.awaiting with
  | .terms version actions protocol =>
    match readOffer f.payload with
    | some (v, a, p) =>
      if f.command = byte 'O' ∧ v ≤ version ∧ a &&& actions = a ∧ p &&& protocol = p then
        { mta with agreed := (a, p), awaiting := .nothing }
      else { mta with awaiting := .outOfStep }
    | none => { mta with awaiting := .outOfStep }
  | .continuation => { mta with awaiting := if f = continueFrame then .nothing else .outOfStep }
  | .verdict added =>
    if f = acceptFrame then { mta with awaiting := .nothing, verdicts := mta.verdicts ++ [added] }
    else
      match additionOf mta.agreed.1 f with
      | some addition => { mta with awaiting := .verdict (added ++ [addition]) }
      | none => { mta with awaiting := .outOfStep }
  | .nothing | .outOfStep => { mta with awaiting := .outOfStep }

/-- The frame at the front of what was written, and what follows it. -/
def readFrame (out : Bytes) : Option (Frame × Bytes) :=
  match fromBeBytes (out.take 4), out.drop 4 with
  | .ok length, command :: rest =>
    if length.toNat - 1 ≤ rest.length then some (⟨command, rest.take (length.toNat - 1)⟩, rest.drop (length.toNat - 1))
    else none
  | _, _ => none

/-! ## The two sides -/

structure Session (Key : Type) where
  mta : Mta := {}
  /-- sent and not yet read -/
  commands : List MtaCommand := []
  /-- the packets read, each with the moment it was processed at -/
  served : List (Event Key) := []
  /-- how many bytes the MTA has read -/
  heard : Nat := 0

inductive SessionEvent (Key : Type) where
  | send (c : MtaCommand)
  /-- The loop reads a packet and does what it has to. -/
  | serve (moment : Moment Key)
  /-- The MTA reads a frame. -/
  | receive

section
variable {Key : Type}

def Session.output (s : Session Key) : Bytes := (written s.served).drop s.heard

def Session.step (s : Session Key) : SessionEvent Key → Option (Session Key)
  | .send c =>
    if s.mta.awaiting = .nothing ∧ s.mta.gone = false then some { s with mta := s.mta.send c, commands := s.commands ++ [c] }
    else none
  | .serve moment =>
    match s.commands, after s.served with
    | c :: commands, some _ => some { s with commands, served := s.served ++ [⟨moment, c.packet⟩] }
    | _, _ => none
  | .receive =>
    match readFrame s.output with
    | some (f, rest) => some { s with mta := s.mta.receive f, heard := s.heard + (s.output.length - rest.length) }
    | none => none

end

/-! ## What is known of the reply -/

theorem noReplyFlag_letter (s : Stage) : noReplyFlag s.letter = s.noReply := by
  cases s <;> rfl

theorem fromBeBytes_toBeBytes (n : UInt32) : fromBeBytes (toBeBytes n) = .ok n := by
  obtain ⟨m, hm⟩ := fromBeBytes_total (length_toBeBytes n)
  rw [hm, toBeBytes_inj (toBeBytes_of_fromBeBytes hm)]

theorem readOffer_offer (version actions protocol : UInt32) :
    readOffer (toBeBytes version ++ toBeBytes actions ++ toBeBytes protocol) = some (version, actions, protocol) := by
  have hv := Exec.ok.inj (fromBeBytes_toBeBytes version)
  have ha := Exec.ok.inj (fromBeBytes_toBeBytes actions)
  have hp := Exec.ok.inj (fromBeBytes_toBeBytes protocol)
  exact congrArg some (Prod.ext hv (Prod.ext ha hp))

theorem readFrame_encode {f : Frame} (hf : f.Proper) (rest : Bytes) : readFrame (f.encode ++ rest) = some (f, rest) := by
  have hlen : (UInt32.ofNat (1 + f.payload.length)).toNat - 1 = f.payload.length := by
    rw [UInt32.toNat_ofNat_of_lt' hf.2]
    omega
  have htake : (f.encode ++ rest).take 4 = toBeBytes (UInt32.ofNat (1 + f.payload.length)) := by
    rw [Frame.encode, List.append_assoc]
    exact List.take_left' (length_toBeBytes _)
  have hdrop : (f.encode ++ rest).drop 4 = f.command :: (f.payload ++ rest) := by
    rw [Frame.encode, List.append_assoc]
    exact List.drop_left' (length_toBeBytes _)
  rw [readFrame, htake, hdrop, fromBeBytes_toBeBytes]
  simp only [hlen]
  rw [if_pos (by rw [List.length_append]; omega), List.take_left, List.drop_left]

/-! ## What the MTA is told -/

section
variable {Key : Type}

/-- The packets that end a message, each with those before it. -/
def endsFrom (h : List (Event Key)) : List (Event Key) → List (List (Event Key) × Event Key)
  | [] => []
  | e :: es => (if e.kind = some .E then [(h, e)] else []) ++ endsFrom (h ++ [e]) es

def endsOf (es : List (Event Key)) : List (List (Event Key) × Event Key) := endsFrom [] es

theorem endsFrom_snoc : ∀ (es h : List (Event Key)) (e : Event Key),
    endsFrom h (es ++ [e]) = endsFrom h es ++ if e.kind = some .E then [(h ++ es, e)] else []
  | [], h, e => by simp [endsFrom]
  | x :: es, h, e => by
    rw [List.cons_append, endsFrom, endsFrom, endsFrom_snoc es, List.append_assoc, List.append_assoc, List.singleton_append]

theorem endsOf_snoc (es : List (Event Key)) (e : Event Key) :
    endsOf (es ++ [e]) = endsOf es ++ if e.kind = some .E then [(es, e)] else [] :=
  endsFrom_snoc es [] e

/-- Told to add what the frames written for the end of this message add, in their order; these are the frames of
`finish_message`. -/
def Verdict (message : List (Event Key) × Event Key) (added : List (Bytes × Bytes)) : Prop :=
  ∃ conn frames, after message.1 = some conn ∧ finishFrames message.2.moment.env conn.state conn.actions = .ok frames ∧
    Answered message.1 message.2 frames ∧ added = frames.filterMap (additionOf conn.actions)

/-- The MTA knows what there is to know of the packets read. -/
structure Mta.Settled (mta : Mta) (served : List (Event Key)) : Prop where
  agreed : mta.agreed = DkimLite.agreed served
  verdicts : List.Forall₂ Verdict (endsOf served) mta.verdicts

/-- The frames on their way are the ones the MTA waits for, and after them it is settled. -/
def Mta.Due (served : List (Event Key)) : Mta → List Frame → Prop
  | mta, [] => mta.awaiting = .nothing ∧ mta.Settled served
  | mta, f :: fs => mta.awaiting ≠ .nothing ∧ mta.awaiting ≠ .outOfStep ∧ (mta.receive f).Due served fs

variable {mta : Mta} {h : List (Event Key)} {moment : Moment Key} {c : MtaCommand} {conn conn' : Conn Key}
  {frames : List Frame}

/-- A packet that neither offers terms nor ends a message. -/
theorem Mta.Settled.other {e : Event Key} (hsettled : mta.Settled h) (hoffer : e.kind ≠ some .O) (hend : e.kind ≠ some .E) :
    mta.Settled (h ++ [e]) where
  agreed := by rw [hsettled.agreed, agreed_snoc, agreedStep_other hoffer]
  verdicts := by rw [endsOf_snoc, if_neg hend, List.append_nil]; exact hsettled.verdicts

/-- Settled is a matter of the terms and the verdicts. -/
theorem Mta.Settled.congr {mta' : Mta} (hsettled : mta.Settled h) (hagreed : mta'.agreed = mta.agreed)
    (hverdicts : mta'.verdicts = mta.verdicts) : mta'.Settled h where
  agreed := hagreed.trans hsettled.agreed
  verdicts := hverdicts ▸ hsettled.verdicts

theorem Stage.kind (s : Stage) : Command.of s.letter = .M ∨ Command.of s.letter = .L ∨ Command.of s.letter = .B ∨
    Command.of s.letter = .plain := by
  cases s <;> decide

theorem Stage.kind_ne (s : Stage) (payload : Bytes) : (⟨moment, s.letter :: payload⟩ : Event Key).kind ≠ some .O ∧
    (⟨moment, s.letter :: payload⟩ : Event Key).kind ≠ some .E := by
  have hkind : (⟨moment, s.letter :: payload⟩ : Event Key).kind = some (Command.of s.letter) := rfl
  rw [hkind]
  rcases s.kind with hk | hk | hk | hk <;> rw [hk] <;> exact ⟨by simp, by simp⟩

/-- The reply to a stage. -/
theorem frames_of_stage {s : Stage} {payload : Bytes} (hfollows : conn.Follows h)
    (hturn : Turn moment conn s.letter payload (Command.of s.letter) frames conn') :
    frames = if (agreed h).2 &&& s.noReply = 0 then [continueFrame] else [] := by
  have hflags : frames = continueFrames conn.protocol s.letter := by
    cases s <;> cases hturn <;> rfl
  rw [hflags, continueFrames, noReplyFlag_letter, hfollows.protocol]

/-- The field to add, as the MTA reads it. -/
theorem additionOf_signature {actions : UInt32} {value : Bytes} (hnul : NUL ∉ value)
    (hperm : actions &&& (actionAddHeader ||| actionChangeHeader) ≠ 0) :
    additionOf actions (signatureFrame actions value) = some (dkimSignatureName, value) := by
  have hstrings := cStrings_signature hnul
  have hallowed := signatureFrame_allowed hperm value
  unfold signatureFrame at hallowed ⊢
  split
  case isTrue hchange =>
    have hlen : 4 ≤ (toBeBytes 0 ++ signatureStrings value).length := by
      rw [List.length_append, length_toBeBytes]
      omega
    have hdrop : (toBeBytes 0 ++ signatureStrings value).drop 4 = signatureStrings value := List.drop_left' (length_toBeBytes 0)
    simp only [additionOf, hlen, hchange, ne_eq, not_false_eq_true, and_self, if_true, hdrop, Option.bind_some, hstrings]
  case isFalse hchange =>
    rw [if_neg hchange] at hallowed
    rcases hallowed with ⟨-, hchange'⟩ | ⟨-, -, hadd⟩
    · exact absurd hchange' hchange
    · have hne : byte 'h' ≠ byte 'i' := by decide
      simp only [additionOf, hne, false_and, if_false, hadd, ne_eq, not_false_eq_true, and_self, if_true, Option.bind_some,
        hstrings]

theorem additionOf_accept (actions : UInt32) : additionOf actions acceptFrame = none := by
  have hi : acceptFrame.command ≠ byte 'i' := by decide
  have hh : acceptFrame.command ≠ byte 'h' := by decide
  simp only [additionOf, hi, hh, false_and, if_false, Option.bind_none]

/-- A message that ended has its verdict. -/
theorem Mta.Settled.ended {e : Event Key} (hsettled : mta.Settled h) (hend : e.kind = some .E) {added : List (Bytes × Bytes)}
    (hverdict : Verdict (h, e) added) :
    ({ mta with awaiting := .nothing, verdicts := mta.verdicts ++ [added] } : Mta).Settled (h ++ [e]) where
  agreed := by
    have hoffer : e.kind ≠ some .O := by rw [hend]; simp
    rw [agreed_snoc, agreedStep_other hoffer]
    exact hsettled.agreed
  verdicts := by
    rw [endsOf_snoc, if_pos hend]
    exact List.rel_append hsettled.verdicts (.cons hverdict .nil)

theorem and_and_left (a m : UInt32) : a &&& m &&& a = a &&& m := by
  rw [UInt32.and_comm, ← UInt32.and_assoc, UInt32.and_self]

theorem min_six_le (version : UInt32) : min version 6 ≤ version := by
  show (if version ≤ 6 then version else 6) ≤ version
  split
  · exact UInt32.le_refl version
  · simp_all only [UInt32.le_iff_toNat_le, UInt32.reduceToNat]
    omega

/-- The terms that come back are no more than was offered. -/
theorem receive_terms {version actions protocol : UInt32} (hawaiting : mta.awaiting = .terms version actions protocol) :
    mta.receive (offerFrame (min version 6) (grantedActions actions) (agreedProtocol version protocol)) =
      { mta with agreed := (grantedActions actions, agreedProtocol version protocol), awaiting := .nothing } := by
  have hprotocol : agreedProtocol version protocol &&& protocol = agreedProtocol version protocol := by
    unfold agreedProtocol
    split
    · exact UInt32.zero_and
    · exact and_and_left _ _
  have hactions : grantedActions actions &&& actions = grantedActions actions := and_and_left _ _
  simp only [Mta.receive, hawaiting, offerFrame, readOffer_offer, min_six_le, hactions, hprotocol, and_self, if_true]

theorem receive_verdict {added : List (Bytes × Bytes)} (hawaiting : mta.awaiting = .verdict added) :
    mta.receive acceptFrame = { mta with awaiting := .nothing, verdicts := mta.verdicts ++ [added] } := by
  simp only [Mta.receive, hawaiting, if_true]

theorem receive_addition {actions : UInt32} {value : Bytes} (hawaiting : mta.awaiting = .verdict [])
    (hactions : mta.agreed.1 = actions) (hnul : NUL ∉ value)
    (hperm : actions &&& (actionAddHeader ||| actionChangeHeader) ≠ 0) :
    mta.receive (signatureFrame actions value) = { mta with awaiting := .verdict [(dkimSignatureName, value)] } := by
  have hne : signatureFrame actions value ≠ acceptFrame := by
    intro heq
    have hsig := signatureFrame_isSignature actions value
    rw [heq, acceptFrame_isSignature] at hsig
    cases hsig
  simp only [Mta.receive, hawaiting, if_neg hne, hactions, additionOf_signature hnul hperm, List.nil_append]

/-- **A command that is not waited for** is not answered. -/
theorem unheard_of_turn (hfollows : conn.Follows h) (hsettled : mta.Settled h)
    (hsilent : c.silent mta.agreed.2 = true) {command : UInt8} {payload : Bytes} (hpacket : c.packet = command :: payload)
    (hturn : Turn moment conn command payload (Command.of command) frames conn') :
    frames = [] ∧ mta.Settled (h ++ [⟨moment, c.packet⟩]) := by
  cases c with
  | stage s p =>
    obtain ⟨rfl, rfl⟩ := List.cons.inj hpacket
    have hloud : mta.agreed.2 &&& s.noReply ≠ 0 := of_decide_eq_true hsilent
    rw [hsettled.agreed] at hloud
    exact ⟨(frames_of_stage hfollows hturn).trans (if_neg hloud), hsettled.other (s.kind_ne p).1 (s.kind_ne p).2⟩
  | macros p =>
    obtain ⟨rfl, rfl⟩ := List.cons.inj hpacket
    have hkind : (⟨moment, byte 'D' :: p⟩ : Event Key).kind = some .D := rfl
    cases hturn
    exact ⟨rfl, hsettled.other (fun h => by cases hkind.symm.trans h) fun h => by cases hkind.symm.trans h⟩
  | abort p =>
    obtain ⟨rfl, rfl⟩ := List.cons.inj hpacket
    have hkind : (⟨moment, byte 'A' :: p⟩ : Event Key).kind = some .A := rfl
    cases hturn
    exact ⟨rfl, hsettled.other (fun h => by cases hkind.symm.trans h) fun h => by cases hkind.symm.trans h⟩
  | offer _ _ _ => cases hsilent
  | endOfMessage _ => cases hsilent
  | quit => cases hsilent

/-- **A command that is waited for** is answered with what the MTA waits for. -/
theorem due_of_turn (hssl : Documented (h ++ [⟨moment, c.packet⟩])) (hafter : after h = some conn) (hfollows : conn.Follows h)
    (hsettled : mta.Settled h) (hawaiting : mta.awaiting = c.awaits) (hloud : c.silent mta.agreed.2 = false)
    {command : UInt8} {payload : Bytes} (hpacket : c.packet = command :: payload)
    (hturn : Turn moment conn command payload (Command.of command) frames conn') :
    mta.Due (h ++ [⟨moment, c.packet⟩]) frames ∧ frames.length ≤ 2 := by
  cases c with
  | offer version actions protocol =>
    obtain ⟨rfl, rfl⟩ := List.cons.inj hpacket
    cases hturn with
    | offer hn =>
      have hoffer := readOffer_offer version actions protocol
      rw [negotiate_of_offer hoffer] at hn
      cases hn
      have hkind : (⟨moment, (MtaCommand.offer version actions protocol).packet⟩ : Event Key).kind = some .O := rfl
      have hend : (⟨moment, (MtaCommand.offer version actions protocol).packet⟩ : Event Key).kind ≠ some .E := by
        rw [hkind]
        simp
      refine ⟨⟨by rw [hawaiting]; simp [MtaCommand.awaits], by rw [hawaiting]; simp [MtaCommand.awaits], ?_⟩, by simp⟩
      rw [receive_terms hawaiting]
      refine ⟨rfl, ?_, ?_⟩
      · rw [agreed_snoc, agreedStep_offer hkind hoffer]
      · rw [endsOf_snoc, if_neg hend, List.append_nil]
        exact hsettled.verdicts
  | stage s p =>
    obtain ⟨rfl, rfl⟩ := List.cons.inj hpacket
    have hloud : mta.agreed.2 &&& s.noReply = 0 := by simpa [MtaCommand.silent] using hloud
    rw [hsettled.agreed] at hloud
    rw [frames_of_stage hfollows hturn, if_pos hloud]
    refine ⟨⟨by rw [hawaiting]; simp [MtaCommand.awaits], by rw [hawaiting]; simp [MtaCommand.awaits], ?_⟩, by simp⟩
    have hreceive : mta.receive continueFrame = { mta with awaiting := .nothing } := by
      simp [Mta.receive, hawaiting, MtaCommand.awaits]
    rw [hreceive]
    exact ⟨rfl, (hsettled.other (s.kind_ne p).1 (s.kind_ne p).2).congr rfl rfl⟩
  | macros p => cases hloud
  | abort p => cases hloud
  | endOfMessage p =>
    have hanswered := answered_of_turn hssl hafter hpacket hturn
    obtain ⟨rfl, rfl⟩ := List.cons.inj hpacket
    cases hturn with
    | finish hframes =>
      have hkind : (⟨moment, byte 'E' :: p⟩ : Event Key).kind = some .E := rfl
      have hactions : mta.agreed.1 = conn.actions := by rw [hsettled.agreed, hfollows.actions]
      have hwaits : mta.awaiting ≠ .nothing ∧ mta.awaiting ≠ .outOfStep := by
        rw [hawaiting]
        simp [MtaCommand.awaits]
      have hverdict : Verdict (h, ⟨moment, byte 'E' :: p⟩) (frames.filterMap (additionOf conn.actions)) :=
        ⟨conn, frames, hafter, hframes, hanswered, rfl⟩
      rcases finishFrames_cases hframes with rfl | ⟨-, hperm, config, signed, -, hsign, rfl⟩
      · refine ⟨⟨hwaits.1, hwaits.2, ?_⟩, by simp⟩
        rw [receive_verdict hawaiting]
        rw [List.filterMap_cons_none (additionOf_accept _), List.filterMap_nil] at hverdict
        exact ⟨rfl, hsettled.ended hkind hverdict⟩
      · have hnul := signed_nul hssl.last hsign
        refine ⟨⟨hwaits.1, hwaits.2, ?_⟩, by simp⟩
        rw [receive_addition hawaiting hactions hnul hperm]
        refine ⟨by simp, by simp, ?_⟩
        rw [receive_verdict rfl]
        rw [List.filterMap_cons_some (additionOf_signature hnul hperm), List.filterMap_cons_none (additionOf_accept _),
          List.filterMap_nil] at hverdict
        exact ⟨rfl, hsettled.ended hkind hverdict⟩
  | quit =>
    obtain ⟨rfl, rfl⟩ := List.cons.inj hpacket
    cases hturn

/-! ## In step -/

/-- When a command ends the connection. -/
theorem ends_of_command {isOpen : Bool} (hends : (⟨moment, c.packet⟩ : Event Key).ends isOpen = true) :
    (c = .quit ∨ moment.active = none) ∧ (⟨moment, c.packet⟩ : Event Key).kind ≠ some .O ∧
      (⟨moment, c.packet⟩ : Event Key).kind ≠ some .E := by
  cases c with
  | offer version actions protocol =>
    have hoffer : (readOffer (toBeBytes version ++ toBeBytes actions ++ toBeBytes protocol)).isNone = true := hends
    rw [readOffer_offer] at hoffer
    cases hoffer
  | stage s p =>
    refine ⟨Or.inr ?_, s.kind_ne p⟩
    cases s with
    | mail => exact Option.isNone_iff_eq_none.1 hends
    | header =>
      have hactive : (!isOpen && moment.active.isNone) = true := hends
      exact Option.isNone_iff_eq_none.1 (Bool.and_eq_true_iff.1 hactive).2
    | connect => cases hends
    | helo => cases hends
    | rcpt => cases hends
    | data => cases hends
    | unknown => cases hends
    | endOfHeaders => cases hends
    | body => cases hends
  | macros p => cases hends
  | abort p => cases hends
  | endOfMessage p => cases hends
  | quit =>
    have hkind : (⟨moment, MtaCommand.quit.packet⟩ : Event Key).kind = some .close := rfl
    rw [hkind]
    exact ⟨Or.inl rfl, by simp, by simp⟩

variable {s t : Session Key}

/-- Where the two sides stand with each other, and how many moves they have left before the MTA's next. -/
inductive InStep (s : Session Key) : Nat → Prop
  /-- The MTA is being answered, or is not waiting. -/
  | hearing (frames : List Frame) (hafter : (after s.served).isSome = true) (hproper : ∀ f ∈ frames, f.Proper)
      (houtput : s.output = encodeAll frames) (hdue : s.mta.Due s.served frames) (hshort : frames.length ≤ 2)
      (hread : frames ≠ [] → s.commands = []) (hsilent : ∀ c ∈ s.commands, c.silent s.mta.agreed.2 = true)
      (hgone : s.mta.gone = false) : InStep s (s.commands.length + frames.length)
  /-- The command that the MTA waits for has not been read. -/
  | asking {cs : List MtaCommand} {c : MtaCommand} (hafter : (after s.served).isSome = true) (houtput : s.output = [])
      (hcommands : s.commands = cs ++ [c]) (hsilent : ∀ x ∈ cs, x.silent s.mta.agreed.2 = true)
      (hloud : c.silent s.mta.agreed.2 = false) (hawaiting : s.mta.awaiting = c.awaits) (hsettled : s.mta.Settled s.served)
      (hgone : s.mta.gone = decide (c = .quit)) : InStep s (s.commands.length + 2)
  /-- The connection is over. -/
  | closed (hafter : after s.served = none) (houtput : s.output = []) (hsettled : s.mta.Settled s.served)
      (hplaced : s.mta.awaiting ≠ .outOfStep)
      (hwhy : s.mta.gone = true ∧ s.commands = [] ∧ s.mta.awaiting = .nothing ∨ ∃ e ∈ s.served, e.moment.active = none) :
      InStep s 0

theorem Mta.Due.quiet {served : List (Event Key)} (hdue : mta.Due served frames) (hawaiting : mta.awaiting = .nothing) :
    frames = [] ∧ mta.Settled served := by
  cases frames with
  | nil => exact ⟨rfl, hdue.2⟩
  | cons f fs => exact absurd hawaiting hdue.1

theorem MtaCommand.awaits_ne (c : MtaCommand) : c.awaits ≠ .outOfStep := by
  cases c <;> simp [MtaCommand.awaits]

/-- A wait begins, or it does not. -/
theorem Mta.send_settled (hsettled : mta.Settled h) : (mta.send c).Settled h := hsettled.congr rfl rfl

/-- **The MTA sends a command.** -/
theorem InStep.send {n : Nat} (hstep : InStep s n) (hawaiting : s.mta.awaiting = .nothing) (hgone : s.mta.gone = false)
    (c : MtaCommand) : ∃ m, InStep { s with mta := s.mta.send c, commands := s.commands ++ [c] } m := by
  cases hstep with
  | hearing frames hafter hproper houtput hdue hshort hread hsilent _ =>
    obtain ⟨rfl, hsettled⟩ := hdue.quiet hawaiting
    cases hloud : c.silent s.mta.agreed.2 with
    | true =>
      have hquit : c ≠ .quit := by
        rintro rfl
        cases hloud
      refine ⟨_, .hearing [] hafter hproper houtput ⟨by simp [Mta.send, hloud], Mta.send_settled hsettled⟩ hshort
        (fun hne => absurd rfl hne) ?_ (by simp [Mta.send, hquit])⟩
      intro x hx
      rcases List.mem_append.1 hx with hx | hx
      · exact hsilent x hx
      · rwa [List.mem_singleton.1 hx]
    | false =>
      exact ⟨_, .asking hafter houtput rfl hsilent hloud (by simp [Mta.send, hloud]) (Mta.send_settled hsettled) rfl⟩
  | asking hafter houtput hcommands hsilent hloud hawaits hsettled hquit =>
    rename_i cs x
    have hx : x = .quit := by
      cases x with
      | stage _ _ => cases hawaits.symm.trans hawaiting
      | offer _ _ _ => cases hawaits.symm.trans hawaiting
      | endOfMessage _ => cases hawaits.symm.trans hawaiting
      | macros _ => cases hloud
      | abort _ => cases hloud
      | quit => rfl
    rw [hgone, hx] at hquit
    simp at hquit
  | closed hafter houtput hsettled hplaced hwhy =>
    refine ⟨_, .closed hafter houtput (Mta.send_settled hsettled) ?_ ?_⟩
    · simp only [Mta.send]
      split
      · simp
      · exact c.awaits_ne
    · rcases hwhy with ⟨hgone', -, -⟩ | hpoisoned
      · rw [hgone] at hgone'
        cases hgone'
      · exact Or.inr hpoisoned

/-- A packet read is answered, or it ends the connection. -/
theorem serve_cases (hssl : Documented (h ++ [⟨moment, c.packet⟩])) (hafter : after h = some conn) :
    (∃ command payload frames conn', c.packet = command :: payload ∧
      Turn moment conn command payload (Command.of command) frames conn' ∧ (∀ f ∈ frames, f.Proper) ∧
      written (h ++ [⟨moment, c.packet⟩]) = written h ++ encodeAll frames ∧
      (after (h ++ [⟨moment, c.packet⟩])).isSome = true) ∨
    (c = .quit ∨ moment.active = none) ∧
      (⟨moment, c.packet⟩ : Event Key).kind ≠ some .O ∧ (⟨moment, c.packet⟩ : Event Key).kind ≠ some .E ∧
      written (h ++ [⟨moment, c.packet⟩]) = written h ∧ after (h ++ [⟨moment, c.packet⟩]) = none := by
  cases hends : (⟨moment, c.packet⟩ : Event Key).ends conn.state.config.isSome with
  | true =>
    obtain ⟨hwhy, hoffer, hend⟩ := ends_of_command hends
    obtain ⟨hwritten, hover⟩ := run_ends hssl.last hafter hends
    exact Or.inr ⟨hwhy, hoffer, hend, hwritten, hover⟩
  | false =>
    obtain ⟨command, payload, frames, conn', hpacket, hturn⟩ := react_goes_on hssl.last hends
    obtain ⟨hwritten, hafter'⟩ := run_turn hssl.last hafter hpacket hturn
    have hproper := (reply_of_turn hssl.last hafter (run_inv hssl.left hafter) hpacket hturn).2
    exact Or.inl ⟨command, payload, frames, conn', hpacket, hturn, hproper, hwritten, by rw [hafter']; rfl⟩

/-- What is still to be read once a packet has been answered. -/
theorem output_answered {e : Event Key} {cs : List MtaCommand} (hheard : s.heard ≤ (written s.served).length)
    (houtput : s.output = []) (hwritten : written (s.served ++ [e]) = written s.served ++ encodeAll frames) :
    Session.output { s with commands := cs, served := s.served ++ [e] } = encodeAll frames := by
  have hnone : (written s.served).drop s.heard = [] := houtput
  rw [Session.output, hwritten, List.drop_append_of_le_length hheard, hnone, List.nil_append]

/-- The packet just read has ended the connection. -/
theorem InStep.ended {cs : List MtaCommand} (houtput : s.output = []) (hsettled : s.mta.Settled s.served)
    (hplaced : s.mta.awaiting ≠ .outOfStep) {e : Event Key} (hoffer : e.kind ≠ some .O) (hend : e.kind ≠ some .E)
    (hwritten : written (s.served ++ [e]) = written s.served) (hover : after (s.served ++ [e]) = none)
    (hwhy : s.mta.gone = true ∧ cs = [] ∧ s.mta.awaiting = .nothing ∨ e.moment.active = none) :
    InStep { s with commands := cs, served := s.served ++ [e] } 0 := by
  refine .closed hover ?_ (hsettled.other hoffer hend) hplaced (hwhy.imp_right fun h => ⟨e, by simp, h⟩)
  rw [Session.output, hwritten]
  exact houtput

/-- **The loop reads a packet.** -/
theorem InStep.serve {n : Nat} (hstep : InStep s n) (hheard : s.heard ≤ (written s.served).length) {cs : List MtaCommand}
    (hcommands : s.commands = c :: cs) (hssl : Documented (s.served ++ [⟨moment, c.packet⟩]))
    (hafter : after s.served = some conn) :
    ∃ m, m < n ∧ InStep { s with commands := cs, served := s.served ++ [⟨moment, c.packet⟩] } m := by
  have hfollows := run_inv hssl.left hafter
  cases hstep with
  | hearing frames _ hproper houtput hdue hshort hread hsilent hgone =>
    have hnil : frames = [] := by
      by_contra hne
      rw [hread hne] at hcommands
      cases hcommands
    subst hnil
    obtain ⟨hawaiting, hsettled⟩ := hdue
    have hc : c.silent s.mta.agreed.2 = true := hsilent c (by rw [hcommands]; simp)
    have hcs : ∀ x ∈ cs, x.silent s.mta.agreed.2 = true := fun x hx => hsilent x (by rw [hcommands]; simp [hx])
    rcases serve_cases hssl hafter with ⟨command, payload, frames, conn', hpacket, hturn, -, hwritten, hafter'⟩ |
      ⟨hwhy, hoffer, hend, hwritten, hover⟩
    · obtain ⟨rfl, hsettled'⟩ := unheard_of_turn hfollows hsettled hc hpacket hturn
      exact ⟨_, by simp [hcommands], .hearing [] hafter' (by simp) (output_answered hheard houtput hwritten)
        ⟨hawaiting, hsettled'⟩ (by simp) (by simp) hcs hgone⟩
    · have hpoisoned := hwhy.resolve_left fun h => by rw [h] at hc; cases hc
      have hplaced : s.mta.awaiting ≠ .outOfStep := by rw [hawaiting]; simp
      exact ⟨0, by simp [hcommands], .ended houtput hsettled hplaced hoffer hend hwritten hover (Or.inr hpoisoned)⟩
  | @asking xs x _ houtput hlast hsilent hloud hawaiting hsettled hgone =>
    have hplaced : s.mta.awaiting ≠ .outOfStep := hawaiting ▸ x.awaits_ne
    have hcases := serve_cases hssl hafter
    cases xs with
    | nil =>
      obtain ⟨rfl, rfl⟩ : c = x ∧ cs = [] := List.cons.inj (hcommands.symm.trans hlast)
      rcases hcases with ⟨command, payload, frames, conn', hpacket, hturn, hproper, hwritten, hafter'⟩ |
        ⟨hwhy, hoffer, hend, hwritten, hover⟩
      · obtain ⟨hdue, hshort⟩ := due_of_turn hssl hafter hfollows hsettled hawaiting hloud hpacket hturn
        have hquit : c ≠ .quit := by
          rintro rfl
          obtain ⟨rfl, -⟩ := List.cons.inj hpacket
          cases hturn
        refine ⟨_, ?_, .hearing frames hafter' hproper (output_answered hheard houtput hwritten) hdue hshort
          (fun _ => rfl) (by simp) (by simpa [hquit] using hgone)⟩
        simp only [hcommands, List.length_nil, List.length_singleton]
        omega
      · refine ⟨0, by simp [hcommands], .ended houtput hsettled hplaced hoffer hend hwritten hover (hwhy.imp_left ?_)⟩
        rintro rfl
        exact ⟨by simpa using hgone, rfl, hawaiting⟩
    | cons y ys =>
      obtain ⟨rfl, rfl⟩ : c = y ∧ cs = ys ++ [x] := List.cons.inj (hcommands.symm.trans hlast)
      have hc : c.silent s.mta.agreed.2 = true := hsilent c (by simp)
      rcases hcases with ⟨command, payload, frames, conn', hpacket, hturn, -, hwritten, hafter'⟩ |
        ⟨hwhy, hoffer, hend, hwritten, hover⟩
      · obtain ⟨rfl, hsettled'⟩ := unheard_of_turn hfollows hsettled hc hpacket hturn
        exact ⟨_, by simp [hcommands], .asking hafter' (output_answered hheard houtput hwritten) rfl
          (fun z hz => hsilent z (by simp [hz])) hloud hawaiting hsettled' hgone⟩
      · have hpoisoned := hwhy.resolve_left fun h => by rw [h] at hc; cases hc
        exact ⟨0, by simp [hcommands], .ended houtput hsettled hplaced hoffer hend hwritten hover (Or.inr hpoisoned)⟩
  | closed hover _ _ _ _ =>
    rw [hafter] at hover
    cases hover

theorem receive_gone (mta : Mta) (f : Frame) : (mta.receive f).gone = mta.gone := by
  unfold Mta.receive
  split
  · split
    · split <;> rfl
    · rfl
  · rfl
  · split
    · rfl
    · split <;> rfl
  · rfl
  · rfl

/-- **The MTA reads a frame.** -/
theorem InStep.receive {n : Nat} (hstep : InStep s n) {f : Frame} {rest : Bytes} (hread : readFrame s.output = some (f, rest)) :
    ∃ m, m < n ∧ InStep { s with mta := s.mta.receive f, heard := s.heard + (s.output.length - rest.length) } m := by
  cases hstep with
  | hearing frames hafter hproper houtput hdue hshort hcommands hsilent hgone =>
    cases frames with
    | nil =>
      rw [houtput] at hread
      cases hread
    | cons g gs =>
      rw [houtput, encodeAll_cons, readFrame_encode (hproper g (by simp))] at hread
      obtain ⟨rfl, rfl⟩ := Prod.mk.inj (Option.some.inj hread)
      have hnone := hcommands (by simp)
      have hrest : Session.output { s with mta := s.mta.receive g, heard := s.heard + (s.output.length - (encodeAll gs).length) } =
          encodeAll gs := by
        have hlen : s.output.length - (encodeAll gs).length = g.encode.length := by
          rw [houtput, encodeAll_cons, List.length_append]
          omega
        have hdrop : (written s.served).drop (s.heard + g.encode.length) = s.output.drop g.encode.length := by
          rw [Session.output, List.drop_drop]
        rw [hlen]
        exact hdrop.trans (by rw [houtput, encodeAll_cons, List.drop_left])
      refine ⟨_, ?_, .hearing gs hafter (fun x hx => hproper x (by simp [hx])) hrest hdue.2.2
        (Nat.le_of_succ_le hshort) (fun _ => hnone) (by rw [hnone]; simp) ((receive_gone _ g).trans hgone)⟩
      simp
  | asking _ houtput _ _ _ _ _ _ =>
    rw [houtput] at hread
    cases hread
  | closed _ houtput _ _ _ =>
    rw [houtput] at hread
    cases hread

/-! ## Whole sessions -/

/-- OpenSSL behaves as documented when the packet is processed. -/
def SessionEvent.Documented : SessionEvent Key → Prop
  | .serve moment => moment.env.ssl.Documented
  | .send _ | .receive => True

/-- Not of the MTA's own accord. -/
def SessionEvent.due : SessionEvent Key → Bool
  | .serve _ | .receive => true
  | .send _ => false

structure Together (s : Session Key) (n : Nat) : Prop where
  heard : s.heard ≤ (written s.served).length
  documented : Documented s.served
  inStep : InStep s n

theorem together_start : Together ({} : Session Key) 0 where
  heard := Nat.zero_le _
  documented := by
    intro e he
    cases he
  inStep := .hearing [] rfl (by simp) rfl ⟨rfl, rfl, .nil⟩ (by simp) (by simp) (by simp) rfl

/-- **One move of either side.** -/
theorem Together.step {n : Nat} {e : SessionEvent Key} (h : Together s n) (hstep : s.step e = some t) (hssl : e.Documented) :
    ∃ m, Together t m ∧ (e.due = true → m < n) := by
  cases e with
  | send c =>
    simp only [Session.step, Option.ite_none_right_eq_some, Option.some.injEq] at hstep
    obtain ⟨⟨hawaiting, hgone⟩, rfl⟩ := hstep
    obtain ⟨m, hm⟩ := h.inStep.send hawaiting hgone c
    exact ⟨m, ⟨h.heard, h.documented, hm⟩, fun hdue => by cases hdue⟩
  | serve moment =>
    simp only [Session.step] at hstep
    split at hstep
    case h_2 => cases hstep
    case h_1 c cs conn hcommands hafter =>
      obtain rfl := Option.some.inj hstep
      have hdocumented : DkimLite.Documented (s.served ++ [⟨moment, c.packet⟩]) := by
        intro e he
        rcases List.mem_append.1 he with he | he
        · exact h.documented e he
        · rw [List.mem_singleton.1 he]
          exact hssl
      obtain ⟨m, hlt, hm⟩ := h.inStep.serve h.heard hcommands hdocumented hafter
      refine ⟨m, ⟨?_, hdocumented, hm⟩, fun _ => hlt⟩
      have hgrows : (written s.served).length ≤ (written (s.served ++ [⟨moment, c.packet⟩])).length := by
        rcases serve_cases hdocumented hafter with ⟨_, _, _, _, _, _, _, hwritten, _⟩ | ⟨_, _, _, hwritten, _⟩
        · rw [hwritten, List.length_append]
          omega
        · rw [hwritten]
      exact Nat.le_trans h.heard hgrows
  | receive =>
    simp only [Session.step] at hstep
    split at hstep
    case h_2 => cases hstep
    case h_1 f rest hread =>
      obtain rfl := Option.some.inj hstep
      obtain ⟨m, hlt, hm⟩ := h.inStep.receive hread
      refine ⟨m, ⟨?_, h.documented, hm⟩, fun _ => hlt⟩
      have hheard := h.heard
      have hlen : s.output.length = (written s.served).length - s.heard := List.length_drop
      simp only
      omega

/-- The run: by induction on the moves. -/
theorem together_run {es : List (SessionEvent Key)} (hrun : runs Session.step {} es = some s)
    (hssl : ∀ e ∈ es, e.Documented) : ∃ n, Together s n := by
  refine runs_history (P := fun es s => (∀ e ∈ es, e.Documented) → ∃ n, Together s n) hrun (fun _ => ⟨0, together_start⟩) ?_ hssl
  intro es t e u ih hstep hssl
  rw [List.forall_mem_append, List.forall_mem_singleton] at hssl
  obtain ⟨n, hn⟩ := ih hssl.1
  obtain ⟨m, hm, -⟩ := hn.step hstep hssl.2
  exact ⟨m, hm⟩

/-- **The two sides never lose step.** Whatever the MTA sends, whenever each side moves: the MTA never
reads a frame it has no use for; while it waits for nothing, nothing is on its way to it, it holds the
terms that the connection works with, and for every message that was ended, in order, it was told to add
what the frames written for that message add; and the connection is over only if it has quit, or the lock
of the configuration was poisoned. -/
theorem session_in_step {es : List (SessionEvent Key)} (hrun : runs Session.step {} es = some s)
    (hssl : ∀ e ∈ es, e.Documented) :
    s.mta.awaiting ≠ .outOfStep ∧
      (s.mta.awaiting = .nothing → s.output = [] ∧ s.mta.agreed = agreed s.served ∧
        List.Forall₂ Verdict (endsOf s.served) s.mta.verdicts) ∧
      (after s.served = none → s.mta.gone = true ∨ ∃ e ∈ s.served, e.moment.active = none) := by
  obtain ⟨n, h⟩ := together_run hrun hssl
  cases h.inStep with
  | hearing frames hafter _ houtput hdue _ _ _ _ =>
    refine ⟨?_, fun hawaiting => ?_, fun hover => by rw [hover] at hafter; cases hafter⟩
    · cases frames with
      | nil =>
        rw [hdue.1]
        simp
      | cons f fs => exact hdue.2.1
    · obtain ⟨rfl, hsettled⟩ := hdue.quiet hawaiting
      exact ⟨houtput, hsettled.agreed, hsettled.verdicts⟩
  | @asking cs c hafter houtput _ _ _ hawaiting hsettled _ =>
    refine ⟨hawaiting ▸ c.awaits_ne, fun _ => ⟨houtput, hsettled.agreed, hsettled.verdicts⟩, fun hover => ?_⟩
    rw [hover] at hafter
    cases hafter
  | closed _ houtput hsettled hplaced hwhy =>
    exact ⟨hplaced, fun _ => ⟨houtput, hsettled.agreed, hsettled.verdicts⟩, fun _ => hwhy.imp_left And.left⟩

theorem InStep.le {n : Nat} (h : InStep s n) : n ≤ s.commands.length + 2 := by
  cases h with
  | hearing => omega
  | asking => omega
  | closed => omega

/-- **No wait is for ever.** Without the MTA sending anything more, there are at most as many moves as
commands not yet read, and two; and as long as it waits for something, one of the two sides can move,
unless the lock of the configuration was poisoned. -/
theorem session_answers {es fs : List (SessionEvent Key)} (hrun : runs Session.step {} es = some s)
    (hmore : runs Session.step s fs = some t) (hdue : ∀ f ∈ fs, f.due = true) (hssl : ∀ e ∈ es ++ fs, e.Documented) :
    fs.length ≤ s.commands.length + 2 ∧
      (t.mta.awaiting = .nothing ∨ (t.step .receive).isSome = true ∨ (∀ moment, (t.step (.serve moment)).isSome = true) ∨
        ∃ e ∈ t.served, e.moment.active = none) := by
  rw [List.forall_mem_append] at hssl
  obtain ⟨n, h⟩ := together_run hrun hssl.1
  obtain ⟨m, hm, hle⟩ : ∃ m, Together t m ∧ fs.length + m ≤ n := by
    refine runs_history (P := fun fs t => (∀ f ∈ fs, f.due = true) → (∀ f ∈ fs, f.Documented) →
      ∃ m, Together t m ∧ fs.length + m ≤ n) hmore (fun _ _ => ⟨n, h, by simp⟩) ?_ hdue hssl.2
    intro fs t f u ih hstep hdue hssl
    rw [List.forall_mem_append, List.forall_mem_singleton] at hdue hssl
    obtain ⟨m, hm, hle⟩ := ih hdue.1 hssl.1
    obtain ⟨k, hk, hlt⟩ := hm.step hstep hssl.2
    have hlt := hlt hdue.2
    refine ⟨k, hk, ?_⟩
    rw [List.length_append, List.length_singleton]
    omega
  have hbound := h.inStep.le
  refine ⟨by omega, ?_⟩
  cases hm.inStep with
  | hearing frames hafter hproper houtput hdue _ _ _ _ =>
    cases frames with
    | nil => exact Or.inl hdue.1
    | cons f fs =>
      refine Or.inr (Or.inl ?_)
      simp only [Session.step, houtput, encodeAll_cons, readFrame_encode (hproper f (by simp)), Option.isSome_some]
  | @asking cs c hafter _ hcommands _ _ _ _ _ =>
    obtain ⟨conn, hafter⟩ := Option.isSome_iff_exists.1 hafter
    obtain ⟨x, xs, hx⟩ : ∃ x xs, t.commands = x :: xs := List.exists_cons_of_ne_nil (by rw [hcommands]; simp)
    refine Or.inr (Or.inr (Or.inl fun moment => ?_))
    simp only [Session.step, hx, hafter, Option.isSome_some]
  | closed _ _ _ _ hwhy =>
    rcases hwhy with ⟨-, -, hawaiting⟩ | hpoisoned
    · exact Or.inl hawaiting
    · exact Or.inr (Or.inr (Or.inr hpoisoned))

end

def exampleMoment : Moment Unit := ⟨some exampleConfig, exampleEnv⟩

/-- Terms are agreed, and a message of one field goes out without a stop. -/
def exampleSending : List (SessionEvent Unit) :=
  [.send (.offer 6 0x1ff 0x1fffff), .serve exampleMoment, .receive, .send (.stage .connect (ascii "localhost")),
    .send (.macros (ascii "M")), .send (.stage .mail []), .serve exampleMoment, .send (.stage .header exampleFrom.wire),
    .send (.endOfMessage [])]

/-- The rest is read and answered. -/
def exampleAnswering : List (SessionEvent Unit) :=
  [.serve exampleMoment, .serve exampleMoment, .serve exampleMoment, .serve exampleMoment, .receive, .receive]

theorem example_documented : ∀ e ∈ exampleSending ++ exampleAnswering, e.Documented := by
  intro e he
  simp only [exampleSending, exampleAnswering, List.cons_append, List.nil_append, List.mem_cons, List.not_mem_nil, or_false] at he
  rcases he with rfl | rfl | rfl | rfl | rfl | rfl | rfl | rfl | rfl | rfl | rfl | rfl | rfl | rfl | rfl <;>
    first | exact exampleSsl_documented | trivial

theorem session_in_step_example : ∃ s : Session Unit, s.mta.verdicts.map List.length = [1] ∧ s.output = [] ∧
    s.mta.agreed = agreed s.served ∧ List.Forall₂ Verdict (endsOf s.served) s.mta.verdicts := by
  have hruns : (runs Session.step {} (exampleSending ++ exampleAnswering)).any (fun s : Session Unit =>
      decide (s.mta.awaiting = .nothing ∧ s.mta.verdicts.map List.length = [1])) = true := by decide +kernel
  obtain ⟨s, hrun, hdone⟩ := (Option.any_eq_true _ _).1 hruns
  obtain ⟨hawaiting, hone⟩ := of_decide_eq_true hdone
  obtain ⟨-, hquiet, -⟩ := session_in_step hrun example_documented
  obtain ⟨houtput, hagreed, hverdicts⟩ := hquiet hawaiting
  exact ⟨s, hone, houtput, hagreed, hverdicts⟩

theorem session_answers_example : ∃ s : Session Unit, s.commands.length = 4 ∧
    exampleAnswering.length ≤ s.commands.length + 2 := by
  have hruns : (runs Session.step {} exampleSending).any (fun s : Session Unit =>
      decide (s.commands.length = 4) && (runs Session.step s exampleAnswering).isSome) = true := by decide +kernel
  obtain ⟨s, hrun, hdone⟩ := (Option.any_eq_true _ _).1 hruns
  obtain ⟨hfour, hmore⟩ := Bool.and_eq_true_iff.1 hdone
  obtain ⟨t, hmore⟩ := Option.isSome_iff_exists.1 hmore
  exact ⟨s, of_decide_eq_true hfour, (session_answers hrun hmore (by decide +kernel) example_documented).1⟩

end DkimLite
