import Mathlib.Data.List.Basic

/-!
# What a piece of Rust code does: `Exec`

A function of the source returns a value, returns `Err(e)` through `?`, or panics. `Exec`
keeps the three apart, so that "this code never panics" is a statement about its model and
not a property of how the model was written. Every operation that can panic (`xs[i]`,
`&xs[i..]`, `&xs[..i]`, `a - b` on `usize`) has a checked form here.

A `while` loop is `whileLoop body fuel`. Running out of fuel counts as a panic, so a proof
that a loop never panics also proves that its fuel suffices, i.e. that it terminates;
`whileLoop_total` is the rule a loop is verified with.
-/

namespace Rust

/-- The outcome of running a piece of Rust code. -/
inductive Exec (α : Type) where
  | ok (a : α)
  | err (e : String)
  | panic
deriving DecidableEq, Repr

namespace Exec

variable {α β γ : Type}

def bind : Exec α → (α → Exec β) → Exec β
  | .ok a, f => f a
  | .err e, _ => .err e
  | .panic, _ => .panic

instance : Monad Exec where
  pure := .ok
  bind := bind

@[simp] theorem pure_eq (a : α) : (pure a : Exec α) = .ok a := rfl
@[simp] theorem ok_bind (a : α) (f : α → Exec β) : (Exec.ok a >>= f) = f a := rfl
@[simp] theorem err_bind (e : String) (f : α → Exec β) : (Exec.err e >>= f) = .err e := rfl
@[simp] theorem panic_bind (f : α → Exec β) : ((Exec.panic : Exec α) >>= f) = .panic := rfl

theorem bind_eq_ok {x : Exec α} {f : α → Exec β} {b : β} :
    (x >>= f) = .ok b ↔ ∃ a, x = .ok a ∧ f a = .ok b := by
  cases x <;> simp

/-- No panic, and the value (if one is returned) satisfies `Q`. -/
def Safe (Q : α → Prop) : Exec α → Prop
  | .ok a => Q a
  | .err _ => True
  | .panic => False

@[simp] theorem safe_ok {Q : α → Prop} {a : α} : Safe Q (.ok a) ↔ Q a := Iff.rfl
@[simp] theorem safe_err {Q : α → Prop} {e : String} : Safe Q (.err e) ↔ True := Iff.rfl
@[simp] theorem safe_panic {Q : α → Prop} : Safe Q .panic ↔ False := Iff.rfl

theorem Safe.ne_panic {Q : α → Prop} {x : Exec α} (h : Safe Q x) : x ≠ .panic := by
  rintro rfl; exact h

theorem Safe.bind {Q : α → Prop} {R : β → Prop} {x : Exec α} {f : α → Exec β} (h : Safe Q x)
    (hf : ∀ a, Q a → Safe R (f a)) : Safe R (x >>= f) := by
  cases x with
  | ok a => exact hf a h
  | err e => trivial
  | panic => exact h.elim

/-- It returns, and what it returns passes the test. -/
def okAnd (x : Exec α) (p : α → Bool) : Bool :=
  match x with
  | .ok a => p a
  | _ => false

theorem okAnd_eq_true {x : Exec α} {p : α → Bool} : x.okAnd p = true ↔ ∃ a, x = .ok a ∧ p a = true := by
  cases x <;> simp [okAnd]

end Exec

/-! ## Operations that can panic -/

section checked
variable {α : Type}

/-- `xs[i]` -/
def index (xs : List α) (i : Nat) : Exec α :=
  match xs[i]? with
  | some a => .ok a
  | none => .panic

/-- `&xs[i..]` -/
def sliceFrom (xs : List α) (i : Nat) : Exec (List α) :=
  if i ≤ xs.length then .ok (xs.drop i) else .panic

/-- `&xs[..i]` -/
def sliceTo (xs : List α) (i : Nat) : Exec (List α) :=
  if i ≤ xs.length then .ok (xs.take i) else .panic

/-- `&xs[i..j]` -/
def slice (xs : List α) (i j : Nat) : Exec (List α) :=
  if i ≤ j ∧ j ≤ xs.length then .ok ((xs.take j).drop i) else .panic

/-- `a - b` on `usize` -/
def checkedSub (a b : Nat) : Exec Nat :=
  if b ≤ a then .ok (a - b) else .panic

theorem index_ok {xs : List α} {i : Nat} {a : α} (h : xs[i]? = some a) : index xs i = .ok a := by
  simp [index, h]

@[simp] theorem index_cons_zero (a : α) (xs : List α) : index (a :: xs) 0 = .ok a := rfl

theorem sliceFrom_ok {xs : List α} {i : Nat} (h : i ≤ xs.length) : sliceFrom xs i = .ok (xs.drop i) :=
  if_pos h

theorem sliceTo_ok {xs : List α} {i : Nat} (h : i ≤ xs.length) : sliceTo xs i = .ok (xs.take i) :=
  if_pos h

theorem sliceFrom_append (pre xs : List α) : sliceFrom (pre ++ xs) pre.length = .ok xs := by
  simp [sliceFrom]

theorem sliceTo_append (pre xs : List α) : sliceTo (pre ++ xs) pre.length = .ok pre := by
  simp [sliceTo]

theorem checkedSub_ok {a b : Nat} (h : b ≤ a) : checkedSub a b = .ok (a - b) := if_pos h

end checked

/-! ## `while` loops -/

/-- One iteration either goes round again or leaves the loop with a value. -/
inductive Flow (σ α : Type) where
  | again (s : σ)
  | done (a : α)

section loop
variable {σ α : Type}

def whileLoop (body : σ → Exec (Flow σ α)) : Nat → σ → Exec α
  | 0, _ => .panic
  | fuel + 1, s =>
    match body s with
    | .ok (.again s') => whileLoop body fuel s'
    | .ok (.done a) => .ok a
    | .err e => .err e
    | .panic => .panic

/-- What one iteration from measure `m` owes: it keeps the invariant and shrinks the measure,
or it leaves with a value satisfying `Q`. -/
def IterPost (I : σ → Prop) (μ : σ → Nat) (Q : α → Prop) (m : Nat) : Flow σ α → Prop
  | .again s' => I s' ∧ μ s' < m
  | .done a => Q a

@[simp] theorem iterPost_again {I : σ → Prop} {μ : σ → Nat} {Q : α → Prop} {m : Nat} {s : σ} :
    IterPost I μ Q m (.again s) ↔ I s ∧ μ s < m := Iff.rfl
@[simp] theorem iterPost_done {I : σ → Prop} {μ : σ → Nat} {Q : α → Prop} {m : Nat} {a : α} :
    IterPost I μ Q m (.done a) ↔ Q a := Iff.rfl

/-- **Total loops.** If every iteration from the invariant returns a value and keeps its
post-condition, the loop returns a value satisfying `Q` whenever the fuel exceeds the measure. -/
theorem whileLoop_total {body : σ → Exec (Flow σ α)} (I : σ → Prop) (μ : σ → Nat) (Q : α → Prop)
    (hbody : ∀ s, I s → ∃ r, body s = .ok r ∧ IterPost I μ Q (μ s) r) :
    ∀ (fuel : Nat) (s : σ), I s → μ s < fuel → ∃ a, whileLoop body fuel s = .ok a ∧ Q a := by
  intro fuel
  induction fuel with
  | zero => intro s _ h; omega
  | succ fuel ih =>
    intro s hI hμ
    obtain ⟨r, hr, hpost⟩ := hbody s hI
    cases r with
    | again s' =>
      obtain ⟨a, ha, hQ⟩ := ih s' hpost.1 (by have := hpost.2; omega)
      exact ⟨a, by simp [whileLoop, hr, ha], hQ⟩
    | done a => exact ⟨a, by simp [whileLoop, hr], hpost⟩

end loop

end Rust
