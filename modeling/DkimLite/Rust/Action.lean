import DkimLite.Rust.Bytes

/-!
# Code that works on a stream

An `Action ε σ α` runs on a stream of state `σ`. It returns a value, returns an error of type
`ε`, panics, or is left waiting for the other side (`pending`). Errors keep the state, since
what was read and written before an error stays read and written.

`loop` is `whileLoop` for actions. `Ok W R Q` is what an action is proved to satisfy: no panic, a
returned value that satisfies `Q` together with the state, an error that satisfies `R`; and a
wait only where `W` holds.
-/

namespace Rust

inductive Outcome (ε σ α : Type) where
  | ok (a : α) (s : σ)
  | err (e : ε) (s : σ)
  | panic
  | pending (s : σ)
deriving DecidableEq

def Action (ε σ α : Type) : Type := σ → Outcome ε σ α

namespace Action

variable {ε ε' σ α β : Type}

def bind (x : Action ε σ α) (f : α → Action ε σ β) : Action ε σ β := fun s =>
  match x s with
  | .ok a s => f a s
  | .err e s => .err e s
  | .panic => .panic
  | .pending s => .pending s

instance : Monad (Action ε σ) where
  pure a := fun s => .ok a s
  bind := bind

/-- `return Err(e)` -/
def throw (e : ε) : Action ε σ α := fun s => .err e s

/-- A computation without a stream; its error is mapped by `f`. -/
def lift (f : String → ε) : Exec α → Action ε σ α
  | .ok a => fun s => .ok a s
  | .err e => fun s => .err (f e) s
  | .panic => fun _ => .panic

/-- `.map_err(f)` -/
def mapErr (f : ε → ε') (x : Action ε σ α) : Action ε' σ α := fun s =>
  match x s with
  | .ok a s => .ok a s
  | .err e s => .err (f e) s
  | .panic => .panic
  | .pending s => .pending s

/-- The error as a value, for a `match` on the result. -/
def try' (x : Action ε σ α) : Action ε' σ (Except ε α) := fun s =>
  match x s with
  | .ok a s => .ok (.ok a) s
  | .err e s => .ok (.error e) s
  | .panic => .panic
  | .pending s => .pending s

section
variable (s : σ)

@[simp] theorem pure_apply (a : α) : (pure a : Action ε σ α) s = .ok a s := rfl
@[simp] theorem throw_apply (e : ε) : (throw e : Action ε σ α) s = .err e s := rfl
@[simp] theorem lift_ok (f : String → ε) (a : α) : (lift f (.ok a) : Action ε σ α) s = .ok a s := rfl
@[simp] theorem lift_err (f : String → ε) (e : String) : (lift f (.err e) : Action ε σ α) s = .err (f e) s := rfl

theorem bind_apply (x : Action ε σ α) (f : α → Action ε σ β) :
    (x >>= f) s = match x s with
      | .ok a s => f a s
      | .err e s => .err e s
      | .panic => .panic
      | .pending s => .pending s := rfl

theorem bind_ok {x : Action ε σ α} {a : α} {s s' : σ} (h : x s = .ok a s') (f : α → Action ε σ β) :
    (x >>= f) s = f a s' := by rw [bind_apply, h]

theorem bind_err {x : Action ε σ α} {e : ε} {s s' : σ} (h : x s = .err e s') (f : α → Action ε σ β) :
    (x >>= f) s = .err e s' := by rw [bind_apply, h]

theorem bind_eq_ok {x : Action ε σ α} {f : α → Action ε σ β} {b : β} {s t : σ} :
    (x >>= f) s = .ok b t ↔ ∃ a u, x s = .ok a u ∧ f a u = .ok b t := by
  rw [bind_apply]
  cases x s <;> simp

end

/-- No panic; a value returned satisfies `Q` and an error `R`, each together with the state; the
action waits only if `W`. -/
def Ok (W : Prop) (R : ε → σ → Prop) (Q : α → σ → Prop) : Outcome ε σ α → Prop
  | .ok a s => Q a s
  | .err e s => R e s
  | .panic => False
  | .pending _ => W

section
variable {W : Prop} {R R' : ε → σ → Prop}

theorem Ok.ne_panic {Q : α → σ → Prop} {o : Outcome ε σ α} (h : Ok W R Q o) : o ≠ .panic := by
  rintro rfl; exact h

theorem Ok.mono {Q Q' : α → σ → Prop} {o : Outcome ε σ α} (h : Ok W R Q o) (hR : ∀ e s, R e s → R' e s)
    (hQ : ∀ a s, Q a s → Q' a s) : Ok W R' Q' o := by
  cases o with
  | ok a s => exact hQ a s h
  | err e s => exact hR e s h
  | panic => exact h
  | pending s => exact h

theorem Ok.bind {Q : α → σ → Prop} {Q' : β → σ → Prop} {x : Action ε σ α} {f : α → Action ε σ β} {s : σ}
    (h : Ok W R Q (x s)) (hf : ∀ a t, Q a t → Ok W R Q' (f a t)) : Ok W R Q' ((x >>= f) s) := by
  rw [bind_apply]
  cases hx : x s with
  | ok a t => rw [hx] at h; exact hf a t h
  | err e t => rw [hx] at h; exact h
  | panic => rw [hx] at h; exact h
  | pending t => rw [hx] at h; exact h

/-- After a first part that is known to return. -/
theorem Ok.of_ok {Q : β → σ → Prop} {x : Action ε σ α} {f : α → Action ε σ β} {a : α} {s t : σ}
    (h : x s = .ok a t) (hf : Ok W R Q (f a t)) : Ok W R Q ((x >>= f) s) := by
  rw [bind_ok h]
  exact hf

theorem Ok.mapErr {R' : ε' → σ → Prop} {Q : α → σ → Prop} {x : Action ε σ α} {s : σ} (h : Ok W R Q (x s)) {f : ε → ε'}
    (hf : ∀ e t, R e t → R' (f e) t) : Ok W R' Q (x.mapErr f s) := by
  rw [Action.mapErr]
  cases hx : x s with
  | ok a t => rw [hx] at h; exact h
  | err e t => rw [hx] at h; exact hf e t h
  | panic => rw [hx] at h; exact h
  | pending t => rw [hx] at h; exact h

/-- A computation without a stream: its value, or its error. -/
theorem Ok.lift {x : Exec α} (h : x ≠ .panic) {f : String → ε} {s : σ} (hs : ∀ e, x = .err e → R (f e) s) :
    Ok W R (fun a t => x = .ok a ∧ t = s) (Action.lift f x s) := by
  cases x with
  | ok a => exact ⟨rfl, rfl⟩
  | err e => exact hs e rfl
  | panic => exact absurd rfl h

/-- What a `match` on the result finds. -/
theorem Ok.try' {R' : ε' → σ → Prop} {Q : α → σ → Prop} {x : Action ε σ α} {s : σ} (h : Ok W R Q (x s)) :
    Ok W R' (fun r t => match r with
      | .ok a => Q a t
      | .error e => R e t) ((x.try' : Action ε' σ (Except ε α)) s) := by
  rw [Action.try']
  cases hx : x s <;> rw [hx] at h <;> exact h

end

/-! ## Loops -/

/-- Running out of fuel is a panic, as for `whileLoop`. -/
def loop {τ : Type} (body : τ → Action ε σ (Flow τ α)) : Nat → τ → Action ε σ α
  | 0, _ => fun _ => .panic
  | fuel + 1, t => do
    match ← body t with
    | .again t => loop body fuel t
    | .done a => return a

/-- **Safe loops.** Every iteration keeps the invariant and shrinks the measure, or leaves. -/
theorem loop_ok {τ : Type} {body : τ → Action ε σ (Flow τ α)} {W : Prop} {R : ε → σ → Prop} {Q : α → σ → Prop}
    (I : τ → σ → Prop) (μ : τ → σ → Nat)
    (hbody : ∀ t s, I t s → Ok W R (fun r s' => match r with
      | .again t' => I t' s' ∧ μ t' s' < μ t s
      | .done a => Q a s') (body t s)) :
    ∀ (fuel : Nat) (t : τ) (s : σ), I t s → μ t s < fuel → Ok W R Q (loop body fuel t s) := by
  intro fuel
  induction fuel with
  | zero => intro t s _ h; omega
  | succ fuel ih =>
    intro t s hI hμ
    rw [loop]
    refine (hbody t s hI).bind fun r s' hr => ?_
    cases r with
    | again t' => exact ih t' s' hr.1 (by have := hr.2; omega)
    | done a => exact hr

/-- The iterations of a loop: `Reaches body t s t' s'` says that it comes from `t` and `s` to `t'` and `s'`. -/
inductive Reaches {τ : Type} (body : τ → Action ε σ (Flow τ α)) (t : τ) (s : σ) : τ → σ → Prop
  | here : Reaches body t s t s
  | next {t' t'' : τ} {s' s'' : σ} : Reaches body t s t' s' → body t' s' = .ok (.again t'') s'' → Reaches body t s t'' s''

/-- **Reachable iterations.** What holds at the start and is kept by every iteration holds of every
iteration reached. -/
theorem Reaches.invariant {τ : Type} {body : τ → Action ε σ (Flow τ α)} {t t' : τ} {s s' : σ} (h : Reaches body t s t' s')
    {I : τ → σ → Prop} (hinit : I t s) (hbody : ∀ t s t' s', I t s → body t s = .ok (.again t') s' → I t' s') : I t' s' := by
  induction h with
  | here => exact hinit
  | next _ hstep ih => exact hbody _ _ _ _ ih hstep

end Action

end Rust
