import DkimLite.Rust.Stream

/-!
# Where an action leads

A `Course` is a reflexive and transitive relation between the states before and after, and a relation
to states in which a course may end. An action keeps to the course if it always leads along it, or
ends it with an error that is `final`; nothing that is built from such actions goes on after a
final error, unless it looks at the error and goes on by itself. `readExact` and `writeAll` look at
errors, to retry the interrupted calls.
-/

namespace Rust
variable {ε ε' σ α β : Type}

structure Course (σ : Type) where
  along : σ → σ → Prop
  ends : σ → σ → Prop
  refl : ∀ s, along s s
  trans : ∀ {s t u}, along s t → along t u → along s u
  last : ∀ {s t u}, along s t → ends t u → ends s u

namespace Course

def Kept (c : Course σ) (final : ε → Prop) (s : σ) : Outcome ε σ α → Prop
  | .ok _ t => c.along s t
  | .err e t => c.along s t ∨ final e ∧ c.ends s t
  | .panic => True
  | .pending t => c.along s t

def Keeps (c : Course σ) (final : ε → Prop) (x : Action ε σ α) : Prop := ∀ s, c.Kept final s (x s)

variable {c : Course σ} {final : ε → Prop} {final' : ε' → Prop}

/-- What happens from a state on the course happens from its start. -/
theorem Kept.of_along {s t : σ} {o : Outcome ε σ α} (h : c.along s t) (ho : c.Kept final t o) : c.Kept final s o := by
  cases o with
  | ok a u => exact c.trans h ho
  | err e u => exact ho.imp (c.trans h) (And.imp_right (c.last h))
  | panic => trivial
  | pending u => exact c.trans h ho

theorem keeps_pure (a : α) : c.Keeps final (pure a) := fun s => c.refl s

theorem keeps_throw (e : ε) : c.Keeps final (Action.throw e : Action ε σ α) := fun s => Or.inl (c.refl s)

theorem keeps_lift (f : String → ε) (x : Exec α) : c.Keeps final (Action.lift f x) := by
  intro s
  cases x with
  | ok a => exact c.refl s
  | err e => exact Or.inl (c.refl s)
  | panic => trivial

theorem Keeps.bind {x : Action ε σ α} {f : α → Action ε σ β} (hx : c.Keeps final x) (hf : ∀ a, c.Keeps final (f a)) :
    c.Keeps final (x >>= f) := by
  intro s
  have h := hx s
  rw [Action.bind_apply]
  cases hxs : x s with
  | ok a t => rw [hxs] at h; exact (hf a t).of_along h
  | err e t => rw [hxs] at h; exact h
  | panic => trivial
  | pending t => rw [hxs] at h; exact h

theorem Keeps.mapErr {x : Action ε σ α} (hx : c.Keeps final x) {f : ε → ε'} (hf : ∀ e, final e → final' (f e)) :
    c.Keeps final' (x.mapErr f) := by
  intro s
  have h := hx s
  rw [Action.mapErr]
  cases hxs : x s with
  | ok a t => rw [hxs] at h; exact h
  | err e t => rw [hxs] at h; exact h.imp_right (And.imp_left (hf e))
  | panic => trivial
  | pending t => rw [hxs] at h; exact h

/-- **A match on the result**, which passes final errors on. -/
theorem Keeps.matched {x : Action ε σ α} {f : Except ε α → Action ε' σ β} (hx : c.Keeps final x)
    (hf : ∀ r, c.Keeps final' (f r)) (hfinal : ∀ e, final e → ∃ e', final' e' ∧ f (.error e) = Action.throw e') :
    c.Keeps final' (x.try' >>= f) := by
  intro s
  have h := hx s
  rw [Action.bind_apply, Action.try']
  cases hxs : x s with
  | ok a t => rw [hxs] at h; exact (hf _ t).of_along h
  | err e t =>
    rw [hxs] at h
    rcases h with h | ⟨he, ht⟩
    · exact (hf _ t).of_along h
    · obtain ⟨e', he', hthrow⟩ := hfinal e he
      simp only [hthrow]
      exact Or.inr ⟨he', ht⟩
  | panic => trivial
  | pending t => rw [hxs] at h; exact h

theorem keeps_loop {τ : Type} {body : τ → Action ε σ (Flow τ α)} (hbody : ∀ t, c.Keeps final (body t)) (fuel : Nat)
    (t : τ) : c.Keeps final (Action.loop body fuel t) := by
  induction fuel generalizing t with
  | zero => exact fun _ => trivial
  | succ fuel ih =>
    refine (hbody t).bind fun r => ?_
    cases r with
    | again t' => exact ih t'
    | done a => exact keeps_pure a

/-! ## Reading and writing in pieces -/

section
variable {final : IoError → Prop} {fuel : σ → Nat}

theorem readExact_keeps {read : Nat → Action IoError σ Bytes} (hread : ∀ n, c.Keeps final (read n))
    (hfinal : ∀ e, final e → e.kind ≠ .interrupted) (buf : Bytes) : c.Keeps final (readExact read fuel buf) := by
  intro s
  refine keeps_loop (fun t => ?_) _ _ s
  obtain ⟨filled, rest⟩ := t
  rw [readExactStep]
  split
  · exact keeps_pure _
  · refine (hread _).matched (fun r => ?_) fun e he => ⟨e, he, if_neg (hfinal e he)⟩
    cases r with
    | ok data =>
      cases data with
      | nil => exact keeps_throw _
      | cons b data => exact (keeps_lift _ _).bind fun _ => keeps_pure _
    | error e =>
      simp only
      split
      · exact keeps_pure _
      · exact keeps_throw _

theorem writeAll_keeps {write : Bytes → Action IoError σ Nat} (hwrite : ∀ buf, c.Keeps final (write buf))
    (hfinal : ∀ e, final e → e.kind ≠ .interrupted) (buf : Bytes) : c.Keeps final (writeAll write fuel buf) := by
  intro s
  refine keeps_loop (fun rest => ?_) _ _ s
  rw [writeAllStep]
  split
  · exact keeps_pure _
  · refine (hwrite _).matched (fun r => ?_) fun e he => ⟨e, he, if_neg (hfinal e he)⟩
    cases r with
    | ok n =>
      cases n with
      | zero => exact keeps_throw _
      | succ n => exact (keeps_lift _ _).bind fun _ => keeps_pure _
    | error e =>
      simp only
      split
      · exact keeps_pure _
      · exact keeps_throw _

end

end Course

end Rust
