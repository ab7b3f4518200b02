import Mathlib.Algebra.BigOperators.Pi
import Mathlib.Algebra.BigOperators.Fin
import Mathlib.Algebra.Order.BigOperators.Group.Finset
import DkimLite.Rust.Machine

/-!
# A fixed number of threads, and how runs end

`Fin n → σ` says where each of `n` threads stands. `total f` adds up what `f` says of each of them;
a step of one thread changes that thread's share only (`total_update`), so what the threads have
among them is accounted for one step at a time.

`runs_component` is the rule for a part of a system: where every step of the whole is a step of the
part or leaves it alone, a run of the whole is a run of the part. `completes` is the rule for
termination: where every state that is not final has a step that lowers a
budget, a final state is reached within it.
-/

namespace Rust
variable {σ ε : Type} {n : Nat}

/-- What the threads have among them. -/
def total (f : σ → Nat) (w : Fin n → σ) : Nat := ∑ i, f (w i)

/-- One thread moves, the others stay. -/
theorem total_update (f : σ → Nat) (w : Fin n → σ) (k : Fin n) (x : σ) :
    total f (Function.update w k x) + f (w k) = total f w + f x := by
  have hrest : ∑ i ∈ Finset.univ.erase k, f (Function.update w k x i) = ∑ i ∈ Finset.univ.erase k, f (w i) := by
    apply Finset.sum_congr rfl
    intro i hi
    rw [Function.update_of_ne (Finset.ne_of_mem_erase hi)]
  unfold total
  rw [← Finset.add_sum_erase _ _ (Finset.mem_univ k), ← Finset.add_sum_erase _ (fun i => f (w i)) (Finset.mem_univ k), hrest,
    Function.update_self]
  omega

theorem total_le {f : σ → Nat} {w : Fin n → σ} {b : Nat} (h : ∀ i, f (w i) ≤ b) : total f w ≤ n * b := by
  unfold total
  calc ∑ i, f (w i) ≤ ∑ _i : Fin n, b := Finset.sum_le_sum fun i _ => h i
    _ = n * b := by simp

/-- One thread's share is part of the total. -/
theorem le_total (f : σ → Nat) (w : Fin n → σ) (i : Fin n) : f (w i) ≤ total f w :=
  Finset.single_le_sum (f := fun i => f (w i)) (fun _ _ => Nat.zero_le _) (Finset.mem_univ i)

/-- And so are the shares of two of them. -/
theorem add_le_total (f : σ → Nat) (w : Fin n → σ) {i j : Fin n} (h : i ≠ j) : f (w i) + f (w j) ≤ total f w := by
  rw [← Finset.sum_pair (f := fun i => f (w i)) h]
  exact Finset.sum_le_sum_of_subset (Finset.subset_univ _)

theorem total_eq_zero {f : σ → Nat} {w : Fin n → σ} : total f w = 0 ↔ ∀ i, f (w i) = 0 := by
  unfold total
  simp

/-- Where each thread has to do with one of the `c` at most, all of them together have no more than the
threads. -/
theorem sum_total_le {ι : Type} (C : Finset ι) {f : ι → σ → Nat} {w : Fin n → σ} {b : Nat}
    (h : ∀ i, ∑ c ∈ C, f c (w i) ≤ b) : ∑ c ∈ C, total (f c) w ≤ n * b := by
  unfold total
  rw [Finset.sum_comm]
  exact total_le (f := fun x => ∑ c ∈ C, f c x) h

/-- A list has room for no more things than its length. -/
theorem sum_count_le {ι : Type} [DecidableEq ι] (C : Finset ι) (l : List ι) : ∑ c ∈ C, l.count c ≤ l.length := by
  induction l with
  | nil => simp
  | cons x l ih =>
    have hx : ∑ c ∈ C, (if x = c then 1 else 0) ≤ 1 := by
      rw [Finset.sum_ite_eq]
      split <;> omega
    simp only [List.count_cons, beq_iff_eq, Finset.sum_add_distrib, List.length_cons]
    omega

/-- **The rule of components.** -/
theorem runs_component {τ δ : Type} {step : σ → ε → Option σ} {step' : τ → δ → Option τ} (part : σ → τ) (event : ε → Option δ)
    (hidle : ∀ s e t, step s e = some t → event e = none → part t = part s)
    (hown : ∀ s e t d, step s e = some t → event e = some d → step' (part s) d = some (part t)) {s t : σ} {es : List ε}
    (hrun : runs step s es = some t) : runs step' (part s) (es.filterMap event) = some (part t) := by
  refine runs_history (P := fun es t => runs step' (part s) (es.filterMap event) = some (part t)) hrun rfl ?_
  intro es t e u ih he
  rw [filterMap_snoc]
  cases hevent : event e with
  | none => simpa [hidle t e u he hevent] using ih
  | some d => exact runs_snoc.2 ⟨part t, ih, hown t e u d he hevent⟩

/-- **The rule of costs**, for states that keep `Inv`. -/
theorem runs_pays {step : σ → ε → Option σ} (Inv : σ → Prop) (counted : ε → Bool) (budget : σ → Nat)
    (hstep : ∀ s e t, Inv s → step s e = some t → Inv t ∧ (if counted e then 1 else 0) + budget t ≤ budget s)
    {s t : σ} {es : List ε} (hrun : runs step s es = some t) (hs : Inv s) :
    Inv t ∧ es.countP counted + budget t ≤ budget s := by
  refine runs_history (P := fun es t => Inv t ∧ es.countP counted + budget t ≤ budget s) hrun ⟨hs, by simp⟩ ?_
  rintro es t e u ⟨ht, hle⟩ he
  obtain ⟨hu, hpay⟩ := hstep t e u ht he
  refine ⟨hu, ?_⟩
  rw [List.countP_append, List.countP_singleton]
  omega

/-- **The rule of termination.** -/
theorem completes {step : σ → ε → Option σ} (Inv Final : σ → Prop) (budget : σ → Nat)
    (hstep : ∀ s, Inv s → ¬ Final s → ∃ e t, step s e = some t ∧ Inv t ∧ budget t < budget s) (s : σ) (hs : Inv s) :
    ∃ es t, runs step s es = some t ∧ Final t ∧ es.length ≤ budget s := by
  induction hb : budget s using Nat.strong_induction_on generalizing s with
  | _ b ih =>
    by_cases hfinal : Final s
    · exact ⟨[], s, rfl, hfinal, Nat.zero_le _⟩
    · obtain ⟨e, t, he, ht, hlt⟩ := hstep s hs hfinal
      obtain ⟨es, u, hrun, hu, hlen⟩ := ih (budget t) (hb ▸ hlt) t ht rfl
      refine ⟨e :: es, u, runs_cons.2 ⟨t, he, hrun⟩, hu, ?_⟩
      rw [List.length_cons]
      omega

end Rust
