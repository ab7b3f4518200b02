import DkimLite.Rust.Machine

/-!
# Draining the backlog (`src/milter.rs:249-270`)

| here | there |
| --- | --- |
| `DrainPoint`, `DrainPoint.step` | `drain_backlog`: where it stands, and how it goes on |
| `DrainEvent` | what it meets: a load of `shutdown`, and what `accept` and `wait_readable` return |
| `flagged` | the flag, which another thread sets at any moment and nobody clears |

The callbacks return anything, in any order, and for as long as they like. `Exit` lists the ways out
of the loop, each with the events it ends with.
-/

namespace DkimLite
open Rust

/-- The kinds of `io::Error` that make a difference to a listener. -/
inductive AcceptErrorKind where
  | wouldBlock | connectionAborted | other
deriving DecidableEq

structure AcceptError where
  kind : AcceptErrorKind
  text : String
deriving DecidableEq

inductive DrainEvent where
  | load (shutdown : Bool)
  | accept (result : Except AcceptError Unit)
  | waitReadable (result : Except String Bool)
deriving DecidableEq

inductive DrainPoint where
  /-- `while !shutdown.load(..)` -/
  | test
  /-- `match accept()` -/
  | accepting
  /-- `wait_readable()` -/
  | readiness
  /-- `Err(_) if shutdown.load(..)` -/
  | guard (error : AcceptError)
  | returned (result : Except String Unit)
deriving DecidableEq

def readinessFailed (text : String) : String := "listener readiness failed: " ++ text

def listenerFailed (e : AcceptError) : String := "listener failed: " ++ e.text

def DrainPoint.step : DrainPoint → DrainEvent → Option DrainPoint
  | .test, .load shutdown => some (if shutdown then .returned (.ok ()) else .accepting)
  | .accepting, .accept (.ok ()) => some .readiness
  | .accepting, .accept (.error e) => some (if e.kind = .wouldBlock then .returned (.ok ()) else .guard e)
  | .readiness, .waitReadable (.ok ready) => some (if ready then .test else .returned (.ok ()))
  | .readiness, .waitReadable (.error text) => some (.returned (.error (readinessFailed text)))
  | .guard e, .load shutdown => some (.returned (if shutdown then .ok () else .error (listenerFailed e)))
  | _, _ => none

def DrainEvent.load? : DrainEvent → Option Bool
  | .load shutdown => some shutdown
  | _ => none

/-! ## The steps -/

/-- `DrainPoint.step`, case by case. -/
inductive DrainStep : DrainPoint → DrainEvent → DrainPoint → Prop
  | stop : DrainStep .test (.load true) (.returned (.ok ()))
  | goOn : DrainStep .test (.load false) .accepting
  | accepted : DrainStep .accepting (.accept (.ok ())) .readiness
  | wouldBlock {e : AcceptError} (h : e.kind = .wouldBlock) :
      DrainStep .accepting (.accept (.error e)) (.returned (.ok ()))
  | refused {e : AcceptError} (h : e.kind ≠ .wouldBlock) : DrainStep .accepting (.accept (.error e)) (.guard e)
  | ready : DrainStep .readiness (.waitReadable (.ok true)) .test
  | notReady : DrainStep .readiness (.waitReadable (.ok false)) (.returned (.ok ()))
  | noReadiness (text : String) :
      DrainStep .readiness (.waitReadable (.error text)) (.returned (.error (readinessFailed text)))
  | excused (e : AcceptError) : DrainStep (.guard e) (.load true) (.returned (.ok ()))
  | failed (e : AcceptError) : DrainStep (.guard e) (.load false) (.returned (.error (listenerFailed e)))

theorem DrainPoint.step_cases {p q : DrainPoint} {e : DrainEvent} (h : p.step e = some q) : DrainStep p e q := by
  unfold DrainPoint.step at h
  split at h
  · rename_i shutdown
    cases h
    cases shutdown with
    | false => exact .goOn
    | true => exact .stop
  · cases h
    exact .accepted
  · rename_i e
    cases h
    by_cases hkind : e.kind = .wouldBlock
    · rw [if_pos hkind]
      exact .wouldBlock hkind
    · rw [if_neg hkind]
      exact .refused hkind
  · rename_i ready
    cases h
    cases ready with
    | false => exact .notReady
    | true => exact .ready
  · cases h
    exact .noReadiness _
  · rename_i e shutdown
    cases h
    cases shutdown with
    | false => exact .failed e
    | true => exact .excused e
  · cases h

/-! ## What the events so far say about the point reached -/

/-- The ways out of the loop. -/
inductive Exit : List DrainEvent → Except String Unit → Prop
  | shutdown (es : List DrainEvent) : Exit (es ++ [.load true]) (.ok ())
  | wouldBlock (es : List DrainEvent) {e : AcceptError} (h : e.kind = .wouldBlock) :
      Exit (es ++ [.accept (.error e)]) (.ok ())
  | notReady (es : List DrainEvent) : Exit (es ++ [.waitReadable (.ok false)]) (.ok ())
  | noReadiness (es : List DrainEvent) (text : String) :
      Exit (es ++ [.waitReadable (.error text)]) (.error (readinessFailed text))
  | listener (es : List DrainEvent) {e : AcceptError} (h : e.kind ≠ .wouldBlock) :
      Exit (es ++ [.accept (.error e), .load false]) (.error (listenerFailed e))

def Shows (es : List DrainEvent) : DrainPoint → Prop
  | .test => True
  | .accepting => ∃ es', es = es' ++ [.load false]
  | .readiness => True
  | .guard e => e.kind ≠ .wouldBlock ∧ ∃ es', es = es' ++ [.accept (.error e)]
  | .returned r => Exit es r

theorem Shows.step {es : List DrainEvent} {p q : DrainPoint} {e : DrainEvent} (h : Shows es p) (hstep : p.step e = some q) :
    Shows (es ++ [e]) q := by
  cases DrainPoint.step_cases hstep with
  | stop => exact .shutdown es
  | goOn => exact ⟨es, rfl⟩
  | accepted => trivial
  | wouldBlock hkind => exact .wouldBlock es hkind
  | refused hkind => exact ⟨hkind, es, rfl⟩
  | ready => trivial
  | notReady => exact .notReady es
  | noReadiness text => exact .noReadiness es text
  | excused e => exact .shutdown es
  | failed e =>
    obtain ⟨hkind, es', rfl⟩ := h
    rw [List.append_assoc]
    exact .listener es' hkind

/-! ## Once the flag is set -/

def DrainEvent.isAccept : DrainEvent → Bool
  | .accept _ => true
  | _ => false

def DrainEvent.isCheck : DrainEvent → Bool
  | .waitReadable _ => true
  | _ => false

namespace DrainPoint

/-- The accepts still to come. -/
def acceptsLeft : DrainPoint → Nat
  | .accepting => 1
  | _ => 0

/-- The readiness checks still to come. -/
def checksLeft : DrainPoint → Nat
  | .accepting | .readiness => 1
  | _ => 0

/-- The steps still to come. -/
def stepsLeft : DrainPoint → Nat
  | .test | .guard _ => 1
  | .accepting => 3
  | .readiness => 2
  | .returned _ => 0

theorem acceptsLeft_le (p : DrainPoint) : p.acceptsLeft ≤ 1 := by
  cases p <;> simp [acceptsLeft]

theorem checksLeft_le (p : DrainPoint) : p.checksLeft ≤ 1 := by
  cases p <;> simp [checksLeft]

theorem stepsLeft_le (p : DrainPoint) : p.stepsLeft ≤ 3 := by
  cases p <;> simp [stepsLeft]

theorem stepsLeft_eq_zero {p : DrainPoint} (h : p.stepsLeft = 0) : ∃ r, p = .returned r := by
  cases p with
  | returned r => exact ⟨r, rfl⟩
  | test => cases h
  | accepting => cases h
  | readiness => cases h
  | guard e => cases h

end DrainPoint

/-- The loop under a flag that is set. -/
abbrev stopping : DrainPoint → DrainEvent → Option DrainPoint := steady DrainPoint.step DrainEvent.load? true

/-- What one step takes from what is left. -/
theorem steady_budget {p q : DrainPoint} {e : DrainEvent} (h : stopping p e = some q) :
    (if e.isAccept then 1 else 0) + q.acceptsLeft ≤ p.acceptsLeft ∧
      (if e.isCheck then 1 else 0) + q.checksLeft ≤ p.checksLeft ∧ 1 + q.stepsLeft ≤ p.stepsLeft := by
  obtain ⟨hload, hstep⟩ := steady_eq_some.1 h
  cases DrainPoint.step_cases hstep with
  | stop => decide
  | goOn => simp [DrainEvent.load?] at hload
  | accepted => decide
  | wouldBlock hkind => exact ⟨Nat.le_refl _, by simp [DrainEvent.isCheck, DrainPoint.checksLeft], by decide⟩
  | refused hkind =>
    exact ⟨Nat.le_refl _, by simp [DrainEvent.isCheck, DrainPoint.checksLeft], by simp [DrainPoint.stepsLeft]⟩
  | ready => decide
  | notReady => decide
  | noReadiness text => exact ⟨Nat.le_refl _, Nat.le_refl _, by simp [DrainPoint.stepsLeft]⟩
  | excused e => exact ⟨Nat.le_refl _, Nat.le_refl _, Nat.le_refl _⟩
  | failed e => simp [DrainEvent.load?] at hload

/-- Loaded as set, an error at hand is not returned. -/
theorem stopping_result {p q : DrainPoint} {es : List DrainEvent} (hrun : runs stopping p es = some q)
    (hp : p = .returned (.ok ()) ∨ ∃ e, p = .guard e) : q = .returned (.ok ()) ∨ ∃ e, q = .guard e := by
  refine runs_keeps (P := fun q => q = .returned (.ok ()) ∨ ∃ e, q = .guard e) hrun hp ?_
  rintro t e u (rfl | ⟨error, rfl⟩) h
  · cases DrainPoint.step_cases (steady_eq_some.1 h).2
  · obtain ⟨hload, hstep⟩ := steady_eq_some.1 h
    cases DrainPoint.step_cases hstep with
    | excused _ => exact Or.inl rfl
    | failed _ => simp [DrainEvent.load?] at hload

/-- Entered with the flag set, the loop does nothing. -/
theorem stopping_test {q : DrainPoint} {es : List DrainEvent} (hrun : runs stopping .test es = some q) :
    es = [] ∧ q = .test ∨ es = [.load true] ∧ q = .returned (.ok ()) := by
  refine runs_history (P := fun es q => es = [] ∧ q = .test ∨ es = [.load true] ∧ q = .returned (.ok ())) hrun
    (Or.inl ⟨rfl, rfl⟩) ?_
  rintro es t e u (⟨rfl, rfl⟩ | ⟨rfl, rfl⟩) h
  · obtain ⟨hload, hstep⟩ := steady_eq_some.1 h
    cases DrainPoint.step_cases hstep with
    | stop => exact Or.inr ⟨rfl, rfl⟩
    | goOn => simp [DrainEvent.load?] at hload
  · cases DrainPoint.step_cases (steady_eq_some.1 h).2

/-- The loop is never stuck: it goes on from whatever it is answered. -/
theorem DrainPoint.progress {p : DrainPoint} (h : ∀ r, p ≠ .returned r) :
    (∀ shutdown, (p.step (.load shutdown)).isSome) ∨ (∀ r, (p.step (.accept r)).isSome) ∨
      ∀ r, (p.step (.waitReadable r)).isSome := by
  cases p with
  | test => exact Or.inl fun _ => rfl
  | accepting =>
    refine Or.inr (Or.inl fun r => ?_)
    cases r with
    | ok _ => rfl
    | error e => rfl
  | readiness =>
    refine Or.inr (Or.inr fun r => ?_)
    cases r with
    | ok ready => rfl
    | error text => rfl
  | guard e => exact Or.inl fun _ => rfl
  | returned r => exact absurd rfl (h r)

/-! ## Whole runs -/

/-- `drain_backlog`, entered with the flag `b`, after the events `es` at the point `p`. -/
structure Drained (b : Bool) (es : List (FlagEvent DrainEvent)) (p : DrainPoint) : Prop where
  /-- An accept comes directly after a load of the flag that found it unset. -/
  accepts : ∀ es₁ r es₂, ownEvents es = es₁ ++ .accept r :: es₂ → ∃ es₀, es₁ = es₀ ++ [.load false]
  /-- Once the flag is set there is at most one more accept and one more readiness check; of three
  more steps none is left, and the loop has returned. -/
  stops : ∀ es₁ es₂, es = es₁ ++ .set :: es₂ →
    (ownEvents es₂).countP DrainEvent.isAccept ≤ 1 ∧ (ownEvents es₂).countP DrainEvent.isCheck ≤ 1 ∧
      (ownEvents es₂).length ≤ 3 ∧ ((ownEvents es₂).length = 3 → ∃ r, p = .returned r)
  /-- Until it returns it goes on, whatever it is answered. -/
  progress : (∀ r, p ≠ .returned r) → (∀ shutdown, (p.step (.load shutdown)).isSome) ∨
    (∀ r, (p.step (.accept r)).isSome) ∨ ∀ r, (p.step (.waitReadable r)).isSome
  /-- With the flag set before the next step, a failed accept is no error. -/
  excused : ∀ es₁ e es₂ es₃ r, es = es₁ ++ .own (.accept (.error e)) :: (es₂ ++ es₃) → ownEvents es₂ = [] →
    (b = true ∨ .set ∈ es₁ ++ es₂) → p = .returned r → r = .ok ()
  /-- With the flag set at entry no callback is invoked. -/
  entry : b = true → ownEvents es = [] ∧ p = .test ∨ ownEvents es = [.load true] ∧ p = .returned (.ok ())
  /-- It returns in one of the listed ways. -/
  exit : ∀ r, p = .returned r → Exit (ownEvents es) r
  /-- While the flag is unset, it is never found set. -/
  unset : b = false → .set ∉ es → .load true ∉ ownEvents es

section
variable {b c : Bool} {es : List (FlagEvent DrainEvent)} {p q : DrainPoint}

/-- An accept, and what came before it. -/
theorem accept_after_load (hrun : runs (flagged DrainPoint.step DrainEvent.load?) (.test, b) es = some (p, c)) :
    Shows (ownEvents es) p ∧
      ∀ es₁ r es₂, ownEvents es = es₁ ++ .accept r :: es₂ → ∃ es₀, es₁ = es₀ ++ [.load false] := by
  refine flagged_history (P := fun es p => Shows es p ∧
    ∀ es₁ r es₂, es = es₁ ++ .accept r :: es₂ → ∃ es₀, es₁ = es₀ ++ [.load false]) hrun ⟨trivial, by simp⟩ ?_
  rintro es t e u ⟨hshows, ih⟩ hstep
  refine ⟨hshows.step hstep, fun es₁ r es₂ heq => ?_⟩
  rcases List.eq_nil_or_concat' es₂ with rfl | ⟨es₃, f, rfl⟩
  · -- the accept is the event just taken
    obtain ⟨rfl, he⟩ := List.append_inj' heq rfl
    obtain rfl : e = .accept r := List.singleton_injective he
    cases DrainPoint.step_cases hstep with
    | accepted => exact hshows
    | wouldBlock _ => exact hshows
    | refused _ => exact hshows
  · rw [← List.cons_append, ← List.append_assoc] at heq
    exact ih es₁ r es₃ (List.append_inj' heq rfl).1

theorem stops_when_set (hrun : runs (flagged DrainPoint.step DrainEvent.load?) (q, true) es = some (p, c)) :
    (ownEvents es).countP DrainEvent.isAccept ≤ 1 ∧ (ownEvents es).countP DrainEvent.isCheck ≤ 1 ∧
      (ownEvents es).length ≤ 3 ∧ ((ownEvents es).length = 3 → ∃ r, p = .returned r) := by
  have hown : runs stopping q (ownEvents es) = some p := (flagged_steady hrun (Or.inl rfl)).1
  have haccepts := runs_count hown fun _ _ _ h => (steady_budget h).1
  have hchecks := runs_count hown fun _ _ _ h => (steady_budget h).2.1
  have hsteps : (ownEvents es).countP (fun _ => true) + p.stepsLeft ≤ q.stepsLeft :=
    runs_count hown fun _ _ _ h => (steady_budget h).2.2
  rw [List.countP_true] at hsteps
  have ha := q.acceptsLeft_le
  have hc := q.checksLeft_le
  have hs := q.stepsLeft_le
  refine ⟨by omega, by omega, by omega, fun hthree => DrainPoint.stepsLeft_eq_zero (by omega)⟩

theorem error_excused {es₁ es₂ es₃ : List (FlagEvent DrainEvent)} {e : AcceptError} {r : Except String Unit}
    (hrun : runs (flagged DrainPoint.step DrainEvent.load?) (.test, b)
      (es₁ ++ .own (.accept (.error e)) :: (es₂ ++ es₃)) = some (.returned r, c))
    (hidle : ownEvents es₂ = []) (hset : b = true ∨ .set ∈ es₁ ++ es₂) : r = .ok () := by
  obtain ⟨⟨t₁, b₁⟩, hrun₁, hrun⟩ := runs_append.1 hrun
  obtain ⟨⟨t₂, b₂⟩, haccept, hrun⟩ := runs_cons.1 hrun
  obtain ⟨⟨t₃, b₃⟩, hrun₂, hrun₃⟩ := runs_append.1 hrun
  obtain ⟨hown, rfl⟩ := flagged_own.1 haccept
  obtain rfl := flagged_idle hrun₂ hidle
  have hseen : b₃ = true := by
    rw [flagged_flag hrun₂, flagged_flag hrun₁, or_assoc, ← List.mem_append]
    exact hset
  rw [hseen] at hrun₃
  have hpoint : t₃ = .returned (.ok ()) ∨ ∃ e, t₃ = .guard e := by
    cases DrainPoint.step_cases (steady_eq_some.1 hown).2 with
    | wouldBlock _ => exact Or.inl rfl
    | refused _ => exact Or.inr ⟨e, rfl⟩
  rcases stopping_result (flagged_steady hrun₃ (Or.inl rfl)).1 hpoint with h | ⟨_, h⟩
  · exact DrainPoint.returned.inj h
  · cases h

end

/-- **No accept after shutdown, and no connection left behind before it.** For all answers of the
callbacks, and wherever the setting of the flag falls among them. -/
theorem drained {b c : Bool} {es : List (FlagEvent DrainEvent)} {p : DrainPoint}
    (hrun : runs (flagged DrainPoint.step DrainEvent.load?) (.test, b) es = some (p, c)) : Drained b es p := by
  refine ⟨(accept_after_load hrun).2, ?_, DrainPoint.progress, ?_, ?_, ?_, ?_⟩
  · rintro es₁ es₂ rfl
    obtain ⟨t, -, hrun⟩ := runs_append.1 hrun
    obtain ⟨u, hset, hrun⟩ := runs_cons.1 hrun
    cases hset
    exact stops_when_set hrun
  · rintro es₁ e es₂ es₃ r rfl hidle hset rfl
    exact error_excused hrun hidle hset
  · rintro rfl
    exact stopping_test (flagged_steady hrun (Or.inl rfl)).1
  · rintro r rfl
    exact (accept_after_load hrun).1
  · rintro rfl hset hload
    have hown := (flagged_steady hrun (Or.inr hset)).1
    simpa [DrainEvent.load?] using steady_loads hown hload

/-- The flag is set inside the first accept, and the backlog stays readable. -/
theorem drained_example :
    Drained false [.own (.load false), .set, .own (.accept (.ok ())), .own (.waitReadable (.ok true)), .own (.load true)]
      (.returned (.ok ())) :=
  drained (c := true) rfl

end DkimLite
