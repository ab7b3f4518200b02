import Mathlib.Data.List.Induction
import Mathlib.Algebra.BigOperators.Group.List.Basic
import Mathlib.Algebra.Order.Monoid.Defs

/-!
# Machines that take events

A machine takes an event in a state or refuses it, and a run is a list of events that were all
taken. `runs_history` is the rule for what holds of a run and the state after it; `runs_count`
bounds how many events of a kind a run has by the budget of its first state.

`flagged` puts a machine beside a flag that others set at any moment and that it loads: the runs of
the two are the interleavings.
-/

namespace Rust
variable {σ ε : Type} {step : σ → ε → Option σ}

/-- The state after the events, if none was refused. -/
def runs (step : σ → ε → Option σ) (s : σ) (es : List ε) : Option σ := es.foldlM step s

@[simp] theorem runs_nil (s : σ) : runs step s [] = some s := rfl

theorem runs_cons {s u : σ} {e : ε} {es : List ε} :
    runs step s (e :: es) = some u ↔ ∃ t, step s e = some t ∧ runs step t es = some u := by
  rw [runs, List.foldlM_cons, Option.bind_eq_bind, Option.bind_eq_some_iff]
  rfl

theorem runs_append {s u : σ} {es fs : List ε} :
    runs step s (es ++ fs) = some u ↔ ∃ t, runs step s es = some t ∧ runs step t fs = some u := by
  rw [runs, List.foldlM_append, Option.bind_eq_bind, Option.bind_eq_some_iff]
  rfl

theorem runs_snoc {s u : σ} {es : List ε} {e : ε} :
    runs step s (es ++ [e]) = some u ↔ ∃ t, runs step s es = some t ∧ step t e = some u := by
  rw [runs_append]
  refine exists_congr fun t => and_congr_right fun _ => ?_
  rw [runs_cons]
  simp

/-- **The rule of histories**: what holds at the start and is kept by every event. -/
theorem runs_history {P : List ε → σ → Prop} {s t : σ} {es : List ε} (hrun : runs step s es = some t) (hstart : P [] s)
    (hstep : ∀ es t e u, P es t → step t e = some u → P (es ++ [e]) u) : P es t := by
  induction es using List.reverseRecOn generalizing t with
  | nil =>
    obtain rfl := Option.some.inj hrun
    exact hstart
  | append_singleton es e ih =>
    obtain ⟨r, hr, he⟩ := runs_snoc.1 hrun
    exact hstep es r e t (ih hr) he

/-- What every event keeps. -/
theorem runs_keeps {P : σ → Prop} {s t : σ} {es : List ε} (hrun : runs step s es = some t) (hstart : P s)
    (hstep : ∀ t e u, P t → step t e = some u → P u) : P t :=
  runs_history (P := fun _ t => P t) hrun hstart fun _ t e u => hstep t e u

/-- **The rule of costs**: every event counted is paid from the budget. -/
theorem runs_count {counted : ε → Bool} {budget : σ → Nat} {s t : σ} {es : List ε} (hrun : runs step s es = some t)
    (hstep : ∀ t e u, step t e = some u → (if counted e then 1 else 0) + budget u ≤ budget t) :
    es.countP counted + budget t ≤ budget s := by
  refine runs_history (P := fun es t => es.countP counted + budget t ≤ budget s) hrun (by simp) ?_
  intro es t e u hle he
  have hpay := hstep t e u he
  rw [List.countP_append, List.countP_singleton]
  omega

/-- What one more event adds to a record of them. -/
theorem filterMap_snoc {α β : Type} (f : α → Option β) (es : List α) (e : α) :
    (es ++ [e]).filterMap f = es.filterMap f ++ (f e).toList := by
  cases h : f e <;> simp [h]

/-! ## Beside a flag -/

inductive FlagEvent (ε : Type) where
  /-- Another thread sets the flag. -/
  | set
  | own (e : ε)
deriving DecidableEq

/-- The events of the machine itself. -/
def FlagEvent.own? : FlagEvent ε → Option ε
  | .set => none
  | .own e => some e

def ownEvents (es : List (FlagEvent ε)) : List ε := es.filterMap FlagEvent.own?

@[simp] theorem ownEvents_nil : ownEvents ([] : List (FlagEvent ε)) = [] := rfl
@[simp] theorem ownEvents_append (es fs : List (FlagEvent ε)) : ownEvents (es ++ fs) = ownEvents es ++ ownEvents fs :=
  List.filterMap_append
@[simp] theorem ownEvents_set (es : List (FlagEvent ε)) : ownEvents (.set :: es) = ownEvents es := rfl
@[simp] theorem ownEvents_own (e : ε) (es : List (FlagEvent ε)) : ownEvents (.own e :: es) = e :: ownEvents es := rfl

/-- The machine while the flag is `b`; `load e` is what the event `e` found the flag to be, if it
loads it. -/
def steady (step : σ → ε → Option σ) (load : ε → Option Bool) (b : Bool) (s : σ) (e : ε) : Option σ :=
  if load e = none ∨ load e = some b then step s e else none

def flagged (step : σ → ε → Option σ) (load : ε → Option Bool) : σ × Bool → FlagEvent ε → Option (σ × Bool)
  | (s, _), .set => some (s, true)
  | (s, b), .own e => (steady step load b s e).map fun t => (t, b)

section
variable {load : ε → Option Bool} {s t : σ} {b c : Bool}

theorem steady_eq_some {e : ε} : steady step load b s e = some t ↔ (load e = none ∨ load e = some b) ∧ step s e = some t := by
  unfold steady
  by_cases hload : load e = none ∨ load e = some b
  · rw [if_pos hload]
    exact ⟨fun h => ⟨hload, h⟩, fun h => h.2⟩
  · rw [if_neg hload]
    constructor
    · intro h
      cases h
    · intro h
      exact absurd h.1 hload

theorem flagged_own {e : ε} : flagged step load (s, b) (.own e) = some (t, c) ↔ steady step load b s e = some t ∧ b = c := by
  rw [flagged, Option.map_eq_some_iff]
  simp

/-- The flag is set if it was at the start or has been since. -/
theorem flagged_flag {es : List (FlagEvent ε)} (hrun : runs (flagged step load) (s, b) es = some (t, c)) :
    c = true ↔ b = true ∨ .set ∈ es := by
  refine runs_history (P := fun es r => r.2 = true ↔ b = true ∨ .set ∈ es) hrun (by simp) ?_
  intro es ⟨s', b'⟩ e ⟨t', c'⟩ ih he
  cases e with
  | set => cases he; simp
  | own e =>
    obtain ⟨-, rfl⟩ := flagged_own.1 he
    simpa using ih

/-- What a machine keeps of its own events, it keeps beside a flag. -/
theorem flagged_history {P : List ε → σ → Prop} {es : List (FlagEvent ε)}
    (hrun : runs (flagged step load) (s, b) es = some (t, c)) (hstart : P [] s)
    (hstep : ∀ es t e u, P es t → step t e = some u → P (es ++ [e]) u) : P (ownEvents es) t := by
  refine runs_history (P := fun es (r : σ × Bool) => P (ownEvents es) r.1) hrun hstart ?_
  intro es ⟨s', b'⟩ e ⟨t', c'⟩ ih he
  cases e with
  | set => cases he; simpa using ih
  | own e =>
    have he := (steady_eq_some.1 (flagged_own.1 he).1).2
    simpa using hstep _ _ _ _ ih he

/-- Without events of its own the machine stays where it is. -/
theorem flagged_idle {es : List (FlagEvent ε)} (hrun : runs (flagged step load) (s, b) es = some (t, c))
    (hidle : ownEvents es = []) : t = s := by
  refine flagged_history (P := fun es t => es = [] → t = s) hrun (fun _ => rfl) ?_ hidle
  intro es t e u _ _ hnil
  simp at hnil

/-- Every load finds what the flag is. -/
theorem steady_loads {es : List ε} (hrun : runs (steady step load b) s es = some t) {e : ε} (he : e ∈ es) :
    load e = none ∨ load e = some b := by
  refine runs_history (P := fun es _ => ∀ e ∈ es, load e = none ∨ load e = some b) hrun (by simp) ?_ e he
  intro es t e u ih hstep
  rw [List.forall_mem_append, List.forall_mem_singleton]
  exact ⟨ih, (steady_eq_some.1 hstep).1⟩

/-- While the flag does not change, the machine runs on its own. -/
theorem flagged_steady {es : List (FlagEvent ε)} (hrun : runs (flagged step load) (s, b) es = some (t, c))
    (hsame : b = true ∨ .set ∉ es) : runs (steady step load b) s (ownEvents es) = some t ∧ c = b := by
  induction es generalizing s with
  | nil => cases hrun; exact ⟨rfl, rfl⟩
  | cons e es ih =>
    obtain ⟨⟨r, b'⟩, he, hrun⟩ := runs_cons.1 hrun
    have hrest : b = true ∨ .set ∉ es := hsame.imp_right fun h hmem => h (List.mem_cons_of_mem _ hmem)
    cases e with
    | set =>
      cases he
      obtain rfl : b = true := hsame.resolve_right fun h => h (List.mem_cons_self ..)
      exact ih hrun hrest
    | own e =>
      obtain ⟨hown, rfl⟩ := flagged_own.1 he
      obtain ⟨hrun, hc⟩ := ih hrun hrest
      exact ⟨runs_cons.2 ⟨r, hown, hrun⟩, hc⟩

end

end Rust
