import DkimLite.Text.Lines

/-!
# Tokens with a choice of separators between them

`Joined S ts v` says that `v` is the tokens `ts` in order, with some `S` string between any two
of them. A text that is folded at some of its spaces is of this form, and so is the text after
its folds are undone; what a reader gets from it (`words_joined`) is the same for both.
-/

namespace Text
open Rust

inductive Joined {α : Type} (S : List α → Prop) : List (List α) → List α → Prop
  | one (t : List α) : Joined S [t] t
  | cons (t : List α) {s v : List α} {ts : List (List α)} : S s → Joined S ts v → Joined S (t :: ts) (t ++ s ++ v)

section
variable {α : Type} {S T : List α → Prop} {p : α → Bool} {ts : List (List α)} {v : List α}

theorem Joined.ne_nil (h : Joined S ts v) : ts ≠ [] := by cases h <;> simp

theorem Joined.cons_inv {t : List α} (h : Joined S (t :: ts) v) (hts : ts ≠ []) :
    ∃ s w, S s ∧ Joined S ts w ∧ v = t ++ s ++ w := by
  cases h with
  | one => exact absurd rfl hts
  | cons _ hs h => exact ⟨_, _, hs, h, rfl⟩

/-- One separator throughout. -/
theorem joined_intercalate {s : List α} (hs : S s) : ∀ {ts : List (List α)}, ts ≠ [] → Joined S ts (s.intercalate ts)
  | [], h => absurd rfl h
  | [t], _ => by rw [List.intercalate_singleton]; exact .one t
  | t :: t' :: ts, _ => by
    rw [List.intercalate_cons_cons]
    exact .cons t hs (joined_intercalate hs (by simp))

theorem mem_joined {x : α} (h : Joined S ts v) (hx : x ∈ v) : (∃ t ∈ ts, x ∈ t) ∨ ∃ s, S s ∧ x ∈ s := by
  induction h with
  | one t => exact Or.inl ⟨t, by simp, hx⟩
  | @cons t s v ts hs _ ih =>
    simp only [List.mem_append] at hx
    rcases hx with (hx | hx) | hx
    · exact Or.inl ⟨t, by simp, hx⟩
    · exact Or.inr ⟨s, hs, hx⟩
    · rcases ih hx with ⟨t', ht', hx⟩ | h
      · exact Or.inl ⟨t', by simp [ht'], hx⟩
      · exact Or.inr h

theorem words_append_seps {w s : List α} (hw : ∀ b ∈ w, p b = false) (hne : s ≠ []) (hs : ∀ b ∈ s, p b = true)
    (l : List α) : words p (w ++ (s ++ l)) = (if w = [] then [] else [w]) ++ words p l := by
  have hseps : ∀ {s : List α}, (∀ b ∈ s, p b = true) → words p (s ++ l) = words p l := by
    intro s hs
    induction s with
    | nil => rfl
    | cons b s ih => rw [List.cons_append, words_sep (hs b (by simp)), ih fun x hx => hs x (by simp [hx])]
  cases s with
  | nil => exact absurd rfl hne
  | cons b s =>
    by_cases hnil : w = []
    · rw [hnil, if_pos rfl, List.nil_append, List.nil_append, hseps hs]
    · rw [if_neg hnil, List.cons_append, words_append_sep hnil hw (hs b (by simp)),
        hseps fun x hx => hs x (by simp [hx])]
      rfl

/-- **The words of joined tokens are the non-empty tokens**, whatever separators were chosen. -/
theorem words_joined (hS : ∀ s, S s → s ≠ [] ∧ ∀ b ∈ s, p b = true) (h : Joined S ts v)
    (ht : ∀ t ∈ ts, ∀ b ∈ t, p b = false) : words p v = ts.filter fun t => !t.isEmpty := by
  induction h with
  | one t =>
    cases t with
    | nil => rfl
    | cons b t => rw [words_of_others (by simp) (ht _ (by simp))]; rfl
  | @cons t s v ts hs _ ih =>
    rw [List.append_assoc, words_append_seps (ht t (by simp)) (hS s hs).1 (hS s hs).2,
      ih fun t' ht' => ht t' (by simp [ht'])]
    cases t <;> simp

end

/-! ## Folded lines -/

/-- What folding at a space leaves: the space, or a line break and a tab. -/
def foldSep (s : Bytes) : Prop := s = [SP] ∨ s = [CR, LF, TAB]

/-- The same after unfolding. -/
def unfoldedSep (s : Bytes) : Prop := s = [SP] ∨ s = [TAB]

theorem foldSep_lwsp {s : Bytes} (h : foldSep s) : s ≠ [] ∧ ∀ b ∈ s, isLwsp b = true := by
  rcases h with rfl | rfl <;> exact ⟨by decide, List.all_eq_true.1 (by decide)⟩

theorem unfoldedSep_wsp {s : Bytes} (h : unfoldedSep s) : s ≠ [] ∧ ∀ b ∈ s, isWsp b = true := by
  rcases h with rfl | rfl <;> exact ⟨by decide, List.all_eq_true.1 (by decide)⟩

theorem removeFolds_append {w : Bytes} (hw : CR ∉ w) (l : Bytes) : removeFolds (w ++ l) = w ++ removeFolds l := by
  induction w with
  | nil => rfl
  | cons b w ih =>
    rw [List.cons_append, removeFolds_other (by rintro rfl; simp at hw), ih fun h => hw (by simp [h])]
    rfl

theorem removeFolds_joined {ts : List Bytes} {v : Bytes} (h : Joined foldSep ts v) (ht : ∀ t ∈ ts, CR ∉ t) :
    Joined unfoldedSep ts (removeFolds v) := by
  induction h with
  | one t =>
    have := removeFolds_append (ht t (by simp)) []
    rw [List.append_nil] at this
    rw [this, show removeFolds [] = [] from rfl, List.append_nil]
    exact .one t
  | @cons t s v ts hs _ ih =>
    have hrest := ih fun t' ht' => ht t' (by simp [ht'])
    rw [List.append_assoc, removeFolds_append (ht t (by simp))]
    rcases hs with rfl | rfl
    · rw [removeFolds_append (by decide), ← List.append_assoc]
      exact .cons t (Or.inl rfl) hrest
    · rw [List.cons_append, List.cons_append, List.cons_append, List.nil_append, removeFolds_fold (by decide),
        removeFolds_other (by decide)]
      have := Joined.cons t (s := [TAB]) (Or.inr rfl) hrest
      simpa using this

end Text
