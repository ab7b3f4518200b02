import Mathlib.Logic.Function.Basic
import Mathlib.Logic.Relation

/-!
# Programs that share a world

A `Prog` makes calls to a world it may share with other programs, one after the other, and goes on
with the answer of each. What a call may answer and do is a relation `act` on the state of the
world, so a call may also fail; between two calls anything allowed by `rely` may happen.

`Wp` is what a program owes then: every call of it stays within `guar`, and `Q` holds of its result
and of every later state. It is a weakest precondition: `Wp.bind` cuts a program at a bind,
`wp_call` takes one call, from an assertion the others keep. `Prog.Returns` is a run of one program
alone. `System` runs programs side by side in
an environment, in any order. If each program's `guar` is within the others' `rely`, they all keep
their `Wp` (`System.Owing.runs`).
-/

namespace Rust

/-- A program with calls `c : C`, answered in `A c`. -/
inductive Prog (C : Type) (A : C → Type) (α : Type) where
  | ret (a : α)
  | call (c : C) (next : A c → Prog C A α)

namespace Prog
variable {C : Type} {A : C → Type} {α β : Type}

def bind : Prog C A α → (α → Prog C A β) → Prog C A β
  | .ret a, f => f a
  | .call c next, f => .call c fun a => (next a).bind f

instance : Monad (Prog C A) where
  pure := .ret
  bind := bind

/-- A single call. -/
def perform (c : C) : Prog C A (A c) := .call c .ret

@[simp] theorem pure_eq (a : α) : (pure a : Prog C A α) = .ret a := rfl
@[simp] theorem ret_bind (a : α) (f : α → Prog C A β) : (Prog.ret a >>= f) = f a := rfl
@[simp] theorem call_bind (c : C) (next : A c → Prog C A α) (f : α → Prog C A β) :
    (Prog.call c next >>= f) = .call c fun a => next a >>= f := rfl

end Prog

/-! ## What a program owes -/

section
variable {S C : Type} {A : C → Type} {α β : Type}

/-- What others may do: nothing, and one thing after the other. -/
structure Interference (rely : S → S → Prop) : Prop where
  refl : ∀ s, rely s s
  trans : ∀ {s₁ s₂ s₃}, rely s₁ s₂ → rely s₂ s₃ → rely s₁ s₃

/-- What holds of a state and is kept by others. -/
def Stable (rely : S → S → Prop) (P : S → Prop) : Prop := ∀ ⦃s s'⦄, rely s s' → P s → P s'

def Wp (act : S → (c : C) → A c → S → Prop) (rely guar : S → S → Prop) (Q : α → S → Prop) : Prog C A α → S → Prop
  | .ret a, s => ∀ s', rely s s' → Q a s'
  | .call c next, s => ∀ s₁, rely s s₁ → ∀ a s₂, act s₁ c a s₂ → guar s₁ s₂ ∧ Wp act rely guar Q (next a) s₂

variable {act : S → (c : C) → A c → S → Prop} {rely guar : S → S → Prop}

/-- Others do not take it away. -/
theorem Wp.stable (hrely : Interference rely) {Q : α → S → Prop} {p : Prog C A α} : Stable rely (Wp act rely guar Q p) := by
  intro s s' hs h
  cases p with
  | ret a => exact fun s'' hs' => h s'' (hrely.trans hs hs')
  | call c next => exact fun s₁ hs₁ => h s₁ (hrely.trans hs hs₁)

theorem Wp.mono {Q Q' : α → S → Prop} (hQ : ∀ a s, Q a s → Q' a s) {p : Prog C A α} {s : S}
    (h : Wp act rely guar Q p s) : Wp act rely guar Q' p s := by
  induction p generalizing s with
  | ret a => exact fun s' hs' => hQ a s' (h s' hs')
  | call c next ih => exact fun s₁ hs₁ a s₂ hact => ⟨(h s₁ hs₁ a s₂ hact).1, ih a (h s₁ hs₁ a s₂ hact).2⟩

/-- **The rule of the bind.** -/
theorem Wp.bind (hrely : Interference rely) {Q : β → S → Prop} {f : α → Prog C A β} {p : Prog C A α} {s : S}
    (h : Wp act rely guar (fun a s => Wp act rely guar Q (f a) s) p s) : Wp act rely guar Q (p >>= f) s := by
  induction p generalizing s with
  | ret a => exact h s (hrely.refl s)
  | call c next ih => exact fun s₁ hs₁ a s₂ hact => ⟨(h s₁ hs₁ a s₂ hact).1, ih a (h s₁ hs₁ a s₂ hact).2⟩

/-- **The rule of the call**: `P` is what is known before it. -/
theorem wp_call {P : S → Prop} (hP : Stable rely P) {Q : α → S → Prop} {c : C} {next : A c → Prog C A α}
    (h : ∀ s a s', P s → act s c a s' → guar s s' ∧ Wp act rely guar Q (next a) s') {s : S} (hs : P s) :
    Wp act rely guar Q (.call c next) s :=
  fun s₁ hs₁ a s₂ hact => h s₁ a s₂ (hP hs₁ hs) hact

theorem wp_call_alone {Q : α → S → Prop} {c : C} {next : A c → Prog C A α} {s : S}
    (h : ∀ a s', act s c a s' → guar s s' ∧ Wp act Eq guar Q (next a) s') : Wp act Eq guar Q (.call c next) s := by
  rintro _ rfl
  exact h

theorem wp_ret_alone {Q : α → S → Prop} {a : α} {s : S} (h : Q a s) : Wp act Eq guar Q (.ret a : Prog C A α) s := by
  rintro _ rfl
  exact h

theorem interference_eq : Interference (Eq : S → S → Prop) := ⟨fun _ => rfl, fun h h' => h.trans h'⟩

/-! ## A run of one program -/

/-- `p`, alone from the first state, returns `b` in the second. -/
inductive Prog.Returns (act : S → (c : C) → A c → S → Prop) : Prog C A β → S → β → S → Prop
  | ret {b : β} {s : S} : Returns act (.ret b) s b s
  | call {c : C} {next : A c → Prog C A β} {a : A c} {b : β} {s s₁ s₂ : S} :
      act s c a s₁ → Returns act (next a) s₁ b s₂ → Returns act (.call c next) s b s₂

theorem Prog.Returns.bind {p : Prog C A α} {f : α → Prog C A β} {a : α} {b : β} {s s₁ s₂ : S}
    (hp : Prog.Returns act p s a s₁) (hf : Prog.Returns act (f a) s₁ b s₂) : Prog.Returns act (p >>= f) s b s₂ := by
  induction hp with
  | ret => exact hf
  | call hact _ ih => exact .call hact (ih hf)

theorem Prog.returns_bind {p : Prog C A α} {f : α → Prog C A β} {b : β} {s s₂ : S}
    (h : Prog.Returns act (p >>= f) s b s₂) : ∃ a s₁, Prog.Returns act p s a s₁ ∧ Prog.Returns act (f a) s₁ b s₂ := by
  induction p generalizing s with
  | ret a => exact ⟨a, s, .ret, h⟩
  | call c next ih =>
    cases h with
    | call hact h =>
      obtain ⟨a, s₁, hp, hf⟩ := ih _ h
      exact ⟨a, s₁, .call hact hp, hf⟩

/-- What a program owes holds of its own runs. -/
theorem Wp.returns (hrely : ∀ s, rely s s) {Q : β → S → Prop} {p : Prog C A β} {s s' : S} {b : β}
    (h : Wp act rely guar Q p s) (hrun : Prog.Returns act p s b s') : Q b s' := by
  induction hrun with
  | ret => exact h _ (hrely _)
  | call hact _ ih => exact ih (h _ (hrely _) _ _ hact).2

end

/-! ## Programs side by side -/

/-- The world, and what each program still has to do. -/
structure System (ι S C : Type) (A : C → Type) (α : Type) where
  world : S
  progs : ι → Prog C A α

namespace System
variable {ι S C : Type} {A : C → Type} {α : Type} [DecidableEq ι]

/-- One step: of the environment, or a call of one of the programs. -/
inductive Step (act : ι → S → (c : C) → A c → S → Prop) (env : S → S → Prop) : System ι S C A α → System ι S C A α → Prop
  | env {s s' : S} {progs : ι → Prog C A α} : env s s' → Step act env ⟨s, progs⟩ ⟨s', progs⟩
  | call {s s' : S} {progs : ι → Prog C A α} {i : ι} {c : C} {next : A c → Prog C A α} {a : A c} :
      progs i = .call c next → act i s c a s' → Step act env ⟨s, progs⟩ ⟨s', Function.update progs i (next a)⟩

/-- Any number of steps, in any order. -/
abbrev Runs (act : ι → S → (c : C) → A c → S → Prop) (env : S → S → Prop) : System ι S C A α → System ι S C A α → Prop :=
  Relation.ReflTransGen (Step act env)

/-- The programs leave each other what they rely on. -/
structure Compatible (env : S → S → Prop) (rely guar : ι → S → S → Prop) : Prop where
  interference : ∀ i, Interference (rely i)
  env : ∀ i {s s'}, env s s' → rely i s s'
  others : ∀ {i j}, i ≠ j → ∀ {s s'}, guar i s s' → rely j s s'

variable {act : ι → S → (c : C) → A c → S → Prop} {env : S → S → Prop} {rely guar : ι → S → S → Prop} {Q : ι → α → S → Prop}

/-- All programs owe what they owe. -/
def Owing (act : ι → S → (c : C) → A c → S → Prop) (rely guar : ι → S → S → Prop) (Q : ι → α → S → Prop)
    (sys : System ι S C A α) : Prop :=
  ∀ i, Wp (act i) (rely i) (guar i) (Q i) (sys.progs i) sys.world

/-- The step, which is one of the environment or within a guarantee. -/
theorem Owing.step (hc : Compatible env rely guar) {sys sys' : System ι S C A α} (h : Owing act rely guar Q sys)
    (hstep : Step act env sys sys') :
    Owing act rely guar Q sys' ∧ (env sys.world sys'.world ∨ ∃ i, guar i sys.world sys'.world) := by
  cases hstep with
  | env henv => exact ⟨fun i => (h i).stable (hc.interference i) (hc.env i henv), Or.inl henv⟩
  | @call s s' progs i c next a hprog hact =>
    have hi : Wp (act i) (rely i) (guar i) (Q i) (.call c next) s := hprog ▸ h i
    obtain ⟨hguar, hnext⟩ := hi s ((hc.interference i).refl s) a s' hact
    refine ⟨fun j => ?_, Or.inr ⟨i, hguar⟩⟩
    by_cases hij : i = j
    · subst hij
      simpa using hnext
    · simpa [Function.update_of_ne (Ne.symm hij)] using (h j).stable (hc.interference j) (hc.others hij hguar)

/-- **The run.** -/
theorem Owing.runs (hc : Compatible env rely guar) {sys sys' : System ι S C A α} (h : Owing act rely guar Q sys)
    (hruns : Runs act env sys sys') : Owing act rely guar Q sys' := by
  induction hruns with
  | refl => exact h
  | tail _ hstep ih => exact (ih.step hc hstep).1

/-- What every step within a guarantee keeps, a run keeps. -/
theorem Owing.keeps (hc : Compatible env rely guar) {P : S → Prop} (henv : ∀ {s s'}, env s s' → P s → P s')
    (hguar : ∀ i {s s'}, guar i s s' → P s → P s') {sys sys' : System ι S C A α} (h : Owing act rely guar Q sys)
    (hruns : Runs act env sys sys') (hP : P sys.world) : P sys'.world := by
  induction hruns with
  | refl => exact hP
  | tail hprev hstep ih =>
    rcases ((h.runs hc hprev).step hc hstep).2 with hs | ⟨i, hs⟩
    · exact henv hs ih
    · exact hguar i hs ih

/-- A run of one program among the others. -/
theorem runs_of_returns {progs : ι → Prog C A α} {i : ι} {p : Prog C A α} {s s' : S} {a : α}
    (h : Prog.Returns (act i) p s a s') (hp : progs i = p) :
    Runs act env ⟨s, progs⟩ ⟨s', Function.update progs i (.ret a)⟩ := by
  induction h generalizing progs with
  | @ret b s =>
    rw [← hp, Function.update_eq_self]
  | @call c next x b s s₁ s₂ hact _ ih =>
    have hrest := @ih (Function.update progs i (next x)) (by simp)
    rw [Function.update_idem] at hrest
    exact .head (.call hp hact) hrest

omit [DecidableEq ι] in
/-- A program that has returned. -/
theorem Owing.returned (hc : Compatible env rely guar) {sys : System ι S C A α} (h : Owing act rely guar Q sys) {i : ι} {a : α}
    (hret : sys.progs i = .ret a) : Q i a sys.world := by
  have hi := h i
  rw [hret] at hi
  exact hi _ ((hc.interference i).refl _)

end System
end Rust
