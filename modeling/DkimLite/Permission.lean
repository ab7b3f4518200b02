import DkimLite.Coverage

/-!
# What the MTA has permitted

The actions that may modify a message are negotiated: an O packet offers them, `grantedActions` of
the offer are kept, and a later offer replaces them. `modification_permitted` says what
`finish_message` (`src/milter.rs:501-542`) does with them in any run: it inserts a header if changing
headers was agreed, else adds one if adding was agreed, and otherwise accepts the message as it is.

So changing headers is taken as a permission to insert one (`insert_without_add`).
-/

namespace DkimLite
open Rust Text

section
variable {Key : Type}

/-! ## The action chosen -/

/-- The frame is the one that the actions agreed on allow. -/
def Frame.AllowedBy (f : Frame) (actions : UInt32) : Prop :=
  f.command = byte 'i' ∧ actions &&& actionChangeHeader ≠ 0 ∨
    f.command = byte 'h' ∧ actions &&& actionChangeHeader = 0 ∧ actions &&& actionAddHeader ≠ 0

theorem signatureFrame_allowed {actions : UInt32} (h : actions &&& (actionAddHeader ||| actionChangeHeader) ≠ 0)
    (value : Bytes) : (signatureFrame actions value).AllowedBy actions := by
  unfold signatureFrame
  split
  case isTrue hchange => exact Or.inl ⟨rfl, hchange⟩
  case isFalse hchange =>
    have hchange : actions &&& actionChangeHeader = 0 := not_not.1 hchange
    refine Or.inr ⟨rfl, hchange, fun hadd => h ?_⟩
    have hboth : actions &&& (actionAddHeader ||| actionChangeHeader) =
        (actions &&& actionAddHeader) ||| (actions &&& actionChangeHeader) := UInt32.toBitVec_inj.1 BitVec.and_or_distrib_left
    rw [hboth, hadd, hchange]
    rfl

/-! ## Who is answered with a signature -/

theorem continueFrames_isSignature {protocol : UInt32} {command : UInt8} : ∀ f ∈ continueFrames protocol command,
    f.isSignature = false := by
  intro f hf
  unfold continueFrames at hf
  split at hf
  · obtain rfl := List.mem_singleton.1 hf
    decide
  · cases hf

/-- Only the end of a message is. -/
theorem Turn.signs {moment : Moment Key} {conn conn' : Conn Key} {command : UInt8} {payload : Bytes} {frames : List Frame}
    {kind : Command} (hturn : Turn moment conn command payload kind frames conn') {f : Frame} (hf : f ∈ frames)
    (hsig : f.isSignature = true) :
    kind = .E ∧ frames = [f, acceptFrame] ∧ f.AllowedBy conn.actions := by
  have hcontinue : ∀ {c : UInt8}, f ∈ continueFrames conn.protocol c →
      kind = .E ∧ frames = [f, acceptFrame] ∧ f.AllowedBy conn.actions := by
    intro c hmem
    rw [continueFrames_isSignature f hmem] at hsig
    cases hsig
  cases hturn with
  | offer =>
    obtain rfl := List.mem_singleton.1 hf
    rw [Frame.isSignature, offerFrame] at hsig
    exact absurd hsig (by simp only [byte]; decide)
  | begin => exact hcontinue hf
  | header => exact hcontinue hf
  | body => exact hcontinue hf
  | finish hframes =>
    rcases finishFrames_cases hframes with rfl | ⟨-, hperm, config, signed, -, -, rfl⟩
    · obtain rfl := List.mem_singleton.1 hf
      simp at hsig
    · rcases List.mem_cons.1 hf with rfl | hf
      · exact ⟨rfl, rfl, signatureFrame_allowed hperm _⟩
      · obtain rfl := List.mem_singleton.1 hf
        simp at hsig
  | abort => cases hf
  | defineMacros => cases hf
  | plain => exact hcontinue hf

/-- Every packet is answered, if only with nothing. -/
theorem answered_total {h : List (Event Key)} {e : Event Key} (hssl : Documented (h ++ [e])) :
    Answered h e [] ∨ ∃ conn conn' command payload frames, after h = some conn ∧ e.packet = command :: payload ∧
      Turn e.moment conn command payload (Command.of command) frames conn' ∧ Answered h e frames := by
  have hnothing : written (h ++ [e]) = written h → Answered h e [] := fun hwritten => ⟨by rw [hwritten]; simp, by simp⟩
  cases hafter : after h with
  | none => exact Or.inl (hnothing (run_over hafter e).1)
  | some conn =>
    cases hends : e.ends conn.state.config.isSome with
    | true => exact Or.inl (hnothing (run_ends hssl.last hafter hends).1)
    | false =>
      obtain ⟨command, payload, frames, conn', hpacket, hturn⟩ := react_goes_on hssl.last hends
      exact Or.inr ⟨conn, conn', command, payload, frames, rfl, hpacket, hturn, answered_of_turn hssl hafter hpacket hturn⟩

/-- **Every modification was permitted.** After any packets `h`, a signature is written only at the
end of a message, with the latest offer agreed on granting changing headers (then it is
inserted) or adding them (then it is added), and it is followed by the acceptance alone. An end
of message that is read and answered without a signature is answered with `a` alone. -/
theorem modification_permitted (h : List (Event Key)) (e : Event Key) (hssl : Documented (h ++ [e])) :
    ∃ frames, Answered h e frames ∧
      (∀ f ∈ frames, f.isSignature = true →
        e.kind = some .E ∧ frames = [f, acceptFrame] ∧ f.AllowedBy (agreed h).1) ∧
      (e.kind = some .E → (after h).isSome = true → (∀ f ∈ frames, f.isSignature = false) → frames = [acceptFrame]) := by
  rcases answered_total hssl with hnothing | ⟨conn, conn', command, payload, frames, hafter, hpacket, hturn, hanswered⟩
  · refine ⟨[], hnothing, by simp, fun hkind hafter _ => ?_⟩
    obtain ⟨conn, hafter⟩ := Option.isSome_iff_exists.1 hafter
    obtain ⟨frames, hanswered, hframes⟩ := finish_of_answered hssl hkind hafter
    obtain rfl := hnothing.unique hanswered
    rcases finishFrames_cases hframes with h | ⟨-, -, config, signed, -, -, h⟩ <;> cases h
  · have hkind : e.kind = some (Command.of command) := (event_of_packet hpacket).1
    refine ⟨frames, hanswered, fun f hf hsig => ?_, fun hE _ hno => ?_⟩
    · obtain ⟨hE, hframes, hallowed⟩ := hturn.signs hf hsig
      rw [(run_inv hssl.left hafter).actions] at hallowed
      exact ⟨by rw [hkind, hE], hframes, hallowed⟩
    · rw [hE] at hkind
      rw [← Option.some.inj hkind] at hturn
      cases hturn with
      | finish hframes =>
        rcases finishFrames_cases hframes with rfl | ⟨-, -, config, signed, -, -, rfl⟩
        · rfl
        · have := hno _ List.mem_cons_self
          rw [signatureFrame_isSignature] at this
          cases this

/-- The reply to the end of a message, evaluated. -/
theorem signs_of_finish {h : List (Event Key)} {e : Event Key} (hssl : Documented (h ++ [e])) (hkind : e.kind = some .E)
    (hsigns : ((after h).any fun conn =>
      (finishFrames e.moment.env conn.state conn.actions).okAnd fun frames => frames.any Frame.isSignature) = true) :
    Signs h e := by
  obtain ⟨conn, hafter, hany⟩ := (Option.any_eq_true _ _).1 hsigns
  obtain ⟨frames, hanswered, hframes⟩ := finish_of_answered hssl hkind hafter
  rw [hframes] at hany
  exact ⟨frames, hanswered, by simpa [Exec.okAnd] using hany⟩

end

/-- An offer of changing headers alone, and a message. -/
def exampleChangeOnly : List (Event Unit) :=
  [exampleEvent 'O' (toBeBytes 6 ++ toBeBytes 0x10 ++ toBeBytes 0), exampleEvent 'M' [], exampleEvent 'L' exampleFrom.wire]

theorem exampleChangeOnly_documented : Documented (exampleChangeOnly ++ [exampleEvent 'E' []]) := by
  intro e he
  simp only [exampleChangeOnly, List.mem_append, List.mem_cons, List.not_mem_nil, or_false] at he
  rcases he with (rfl | rfl | rfl) | rfl <;> exact exampleSsl_documented

theorem modification_permitted_change : ∃ frames, Answered exampleChangeOnly (exampleEvent 'E' []) frames ∧
    ∀ f ∈ frames, f.isSignature = true → f.AllowedBy 0x10 := by
  obtain ⟨frames, hanswered, hall, -⟩ :=
    modification_permitted exampleChangeOnly (exampleEvent 'E' []) exampleChangeOnly_documented
  have hactions : (agreed exampleChangeOnly).1 = 0x10 := by decide +kernel
  exact ⟨frames, hanswered, fun f hf hsig => hactions ▸ (hall f hf hsig).2.2⟩

/-- **A header is inserted where adding headers was not agreed on.** -/
theorem insert_without_add : ¬ ∀ (h : List (Event Unit)) (e : Event Unit), Documented (h ++ [e]) → Signs h e →
    (agreed h).1 &&& actionAddHeader ≠ 0 := by
  intro hall
  exact hall exampleChangeOnly (exampleEvent 'E' []) exampleChangeOnly_documented
    (signs_of_finish exampleChangeOnly_documented rfl (by decide +kernel)) (by decide +kernel)

end DkimLite
