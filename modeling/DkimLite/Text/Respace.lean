import DkimLite.Text.Wsp

/-!
# Texts that differ in their blanks

`Respace L s l l'`: `l'` is `l` with non-empty runs of blanks replaced by others. A lexer that reads
the text from the state `s` says where blanks stand free to be replaced.

* `Respace.split`: an element that is no blank cuts both texts alike;
* `Respace.congr`: a function that skips free blanks has the same value on both;
* `Respace.dropWhile`, `Respace.rdropWhile`: trimming keeps the relation.
-/

namespace Text

/-- A lexer whose state a free blank leaves as it is. -/
structure Lexer (α σ : Type) where
  next : σ → α → σ
  free : σ → Bool
  blank : α → Bool
  next_blank : ∀ {s : σ} {a : α}, free s = true → blank a = true → next s a = s

section
variable {α σ : Type} {L : Lexer α σ}

inductive Respace (L : Lexer α σ) : σ → List α → List α → Prop
  | nil {s : σ} : Respace L s [] []
  | same {s : σ} {a : α} {l l' : List α} : Respace L (L.next s a) l l' → Respace L s (a :: l) (a :: l')
  | swap {s : σ} {a b : α} {l l' : List α} : L.free s = true → L.blank a = true → L.blank b = true → Respace L s l l' →
      Respace L s (a :: l) (b :: l')
  | more {s : σ} {a b : α} {l l' : List α} : L.free s = true → L.blank a = true → L.blank b = true →
      Respace L s (b :: l) l' → Respace L s (a :: b :: l) l'
  | fewer {s : σ} {a b : α} {l l' : List α} : L.free s = true → L.blank a = true → L.blank b = true →
      Respace L s l (b :: l') → Respace L s l (a :: b :: l')

namespace Respace

theorem symm {s : σ} {l l' : List α} (h : Respace L s l l') : Respace L s l' l := by
  induction h with
  | nil => exact .nil
  | same _ ih => exact .same ih
  | swap hs ha hb _ ih => exact .swap hs hb ha ih
  | more hs ha hb _ ih => exact .fewer hs ha hb ih
  | fewer hs ha hb _ ih => exact .more hs ha hb ih

theorem refl (s : σ) (l : List α) : Respace L s l l := by
  induction l generalizing s with
  | nil => exact .nil
  | cons a l ih => exact .same (ih _)

/-- A longer run of blanks on one side. -/
theorem blanks_left {s : σ} (hs : L.free s = true) {b : α} (hb : L.blank b = true) {l l' : List α} (h : Respace L s (b :: l) l') :
    ∀ {g : List α}, (∀ a ∈ g, L.blank a = true) → Respace L s (g ++ b :: l) l'
  | [], _ => h
  | [a], hg => .more hs (hg a (by simp)) hb h
  | a :: a' :: g, hg =>
    .more hs (hg a (by simp)) (hg a' (by simp)) (blanks_left hs hb h (g := a' :: g) fun x hx => hg x (by simp [hx]))

/-- **A run of blanks stands for any other.** -/
theorem run {s : σ} (hs : L.free s = true) {g g' l l' : List α} (hne : g ≠ []) (hne' : g' ≠ [])
    (hg : ∀ a ∈ g, L.blank a = true) (hg' : ∀ a ∈ g', L.blank a = true) (h : Respace L s l l') :
    Respace L s (g ++ l) (g' ++ l') := by
  obtain ⟨g, b, rfl⟩ := (List.eq_nil_or_concat' g).resolve_left hne
  obtain ⟨g', b', rfl⟩ := (List.eq_nil_or_concat' g').resolve_left hne'
  have hb := hg b (by simp)
  have hb' := hg' b' (by simp)
  have hone : Respace L s (b :: l) (b' :: l') := .swap hs hb hb' h
  have hleft : Respace L s (g ++ b :: l) (b' :: l') := blanks_left hs hb hone fun a ha => hg a (by simp [ha])
  have hright := blanks_left hs hb' hleft.symm (g := g') fun a ha => hg' a (by simp [ha])
  simpa using hright.symm

/-- An element that is no free blank stands on both sides. -/
theorem cons_solid {s : σ} {b : α} (hb : L.blank b = false ∨ L.free s = false) {l z : List α} (h : Respace L s (b :: l) z) :
    ∃ z', z = b :: z' ∧ Respace L (L.next s b) l z' := by
  generalize hx : b :: l = x at h
  induction h generalizing l with
  | nil => cases hx
  | same h =>
    cases hx
    exact ⟨_, rfl, h⟩
  | swap hs ha =>
    cases hx
    rcases hb with hb | hb
    · rw [ha] at hb; cases hb
    · rw [hs] at hb; cases hb
  | more hs ha =>
    cases hx
    rcases hb with hb | hb
    · rw [ha] at hb; cases hb
    · rw [hs] at hb; cases hb
  | fewer hs _ hb' _ ih =>
    obtain ⟨z', hz, -⟩ := ih hb hx
    cases hz
    rcases hb with hb | hb
    · rw [hb'] at hb; cases hb
    · rw [hs] at hb; cases hb

/-- **An element that is no blank cuts both texts alike.** -/
theorem split {s : σ} {c : α} (hc : L.blank c = false) {l r z : List α} (h : Respace L s (l ++ c :: r) z) :
    ∃ l' r', z = l' ++ c :: r' ∧ Respace L s l l' ∧ Respace L (L.next (l.foldl L.next s) c) r r' := by
  generalize hx : l ++ c :: r = x at h
  induction h generalizing l with
  | nil => simp at hx
  | @same s a m m' h ih =>
    cases l with
    | nil =>
      cases hx
      exact ⟨[], m', rfl, .nil, h⟩
    | cons a' l =>
      cases hx
      obtain ⟨l', r', rfl, hl, hr⟩ := ih rfl
      exact ⟨a :: l', r', rfl, .same hl, hr⟩
  | @swap s a b m m' hs ha hb h ih =>
    cases l with
    | nil =>
      cases hx
      rw [ha] at hc; cases hc
    | cons a' l =>
      cases hx
      obtain ⟨l', r', rfl, hl, hr⟩ := ih rfl
      exact ⟨b :: l', r', rfl, .swap hs ha hb hl, by rwa [List.foldl_cons, L.next_blank hs ha]⟩
  | @more s a b m m' hs ha hb h ih =>
    match l with
    | [] =>
      cases hx
      rw [ha] at hc; cases hc
    | [a'] =>
      cases hx
      rw [hb] at hc; cases hc
    | a' :: b' :: l =>
      cases hx
      obtain ⟨l', r', rfl, hl, hr⟩ := ih (l := b :: l) rfl
      exact ⟨l', r', rfl, .more hs ha hb hl, by rwa [List.foldl_cons, L.next_blank hs ha]⟩
  | @fewer s a b m m' hs ha hb h ih =>
    obtain ⟨l', r', hz, hl, hr⟩ := ih hx
    cases l' with
    | nil =>
      cases hz
      rw [hb] at hc; cases hc
    | cons b' l' =>
      cases hz
      exact ⟨a :: b :: l', r', rfl, .fewer hs ha hb hl, hr⟩

/-- A text without blanks is its only respacing. -/
theorem eq_of_solid {s : σ} {l z : List α} (hl : ∀ a ∈ l, L.blank a = false) (h : Respace L s l z) : z = l := by
  induction l generalizing s z with
  | nil =>
    generalize hx : ([] : List α) = x at h
    induction h with
    | nil => rfl
    | same => cases hx
    | swap => cases hx
    | more => cases hx
    | fewer _ _ _ _ ih => exact absurd ((ih hx).trans hx.symm) (by simp)
  | cons a l ih =>
    obtain ⟨z', rfl, hz⟩ := h.cons_solid (Or.inl (hl a (by simp)))
    rw [ih (fun x hx => hl x (by simp [hx])) hz]

theorem mem {s : σ} {l l' : List α} (h : Respace L s l l') : ∀ a ∈ l', a ∈ l ∨ L.blank a = true := by
  induction h with
  | nil => simp
  | same _ ih =>
    intro x hx
    rcases List.mem_cons.1 hx with rfl | hx
    · exact Or.inl List.mem_cons_self
    · exact (ih x hx).imp_left (List.mem_cons_of_mem _)
  | swap _ _ hb _ ih =>
    intro x hx
    rcases List.mem_cons.1 hx with rfl | hx
    · exact Or.inr hb
    · exact (ih x hx).imp_left (List.mem_cons_of_mem _)
  | more _ _ _ _ ih =>
    intro x hx
    exact (ih x hx).imp_left (List.mem_cons_of_mem _)
  | fewer _ ha _ _ ih =>
    intro x hx
    rcases List.mem_cons.1 hx with rfl | hx
    · exact Or.inr ha
    · exact ih x hx

/-- **A function of the rest that skips free blanks has one value on both texts.** -/
theorem congr {β : Type} {f : σ → List α → β}
    (hsame : ∀ s a l l', f (L.next s a) l = f (L.next s a) l' → f s (a :: l) = f s (a :: l'))
    (hblank : ∀ s a l, L.free s = true → L.blank a = true → f s (a :: l) = f s l) {s : σ} {l l' : List α}
    (h : Respace L s l l') : f s l = f s l' := by
  induction h with
  | nil => rfl
  | same _ ih => exact hsame _ _ _ _ ih
  | swap hs ha hb _ ih => rw [hblank _ _ _ hs ha, hblank _ _ _ hs hb, ih]
  | more hs ha _ _ ih => rw [hblank _ _ _ hs ha, ih]
  | fewer hs ha _ _ ih => rw [hblank _ _ _ hs ha, ih]

/-! ## Trimming -/

/-- Elements that are dropped at the start leave the state as it is. -/
theorem dropWhile {p : α → Bool} (hp : ∀ a, L.blank a = true → p a = true) {s : σ} (hs : ∀ a, p a = true → L.next s a = s)
    {l l' : List α} (h : Respace L s l l') : Respace L s (l.dropWhile p) (l'.dropWhile p) := by
  induction h with
  | nil => exact .nil
  | @same s a l l' h ih =>
    by_cases ha : p a = true
    · have hnext := hs a ha
      rw [List.dropWhile_cons_of_pos ha, List.dropWhile_cons_of_pos ha]
      rw [hnext] at ih
      exact ih hs
    · rw [List.dropWhile_cons_of_neg ha, List.dropWhile_cons_of_neg ha]
      exact .same h
  | swap _ ha hb _ ih =>
    rw [List.dropWhile_cons_of_pos (hp _ ha), List.dropWhile_cons_of_pos (hp _ hb)]
    exact ih hs
  | more _ ha _ _ ih =>
    rw [List.dropWhile_cons_of_pos (hp _ ha)]
    exact ih hs
  | fewer _ ha _ _ ih =>
    rw [List.dropWhile_cons_of_pos (hp _ ha)]
    exact ih hs

/-- What is left of a text after trimming its end, by its first element. -/
theorem rdropWhile_eq (p : α → Bool) (a : α) (l : List α) : (a :: l).rdropWhile p =
    if l.rdropWhile p = [] then (if p a = true then [] else [a]) else a :: l.rdropWhile p := by
  split
  · rename_i hnil
    split
    · rename_i ha
      exact List.rdropWhile_eq_nil_iff.2 fun x hx => by
        rcases List.mem_cons.1 hx with rfl | hx
        · exact ha
        · exact List.rdropWhile_eq_nil_iff.1 hnil x hx
    · rename_i ha
      rw [rdropWhile_cons _ (by simpa using ha), hnil]
  · rename_i hne
    exact rdropWhile_cons_of_ne_nil a hne

theorem rdropWhile {p : α → Bool} (hp : ∀ a, L.blank a = true → p a = true) {s : σ} {l l' : List α} (h : Respace L s l l') :
    Respace L s (l.rdropWhile p) (l'.rdropWhile p) := by
  have hnil : ∀ {s : σ} {l l' : List α}, Respace L s l l' → (l.rdropWhile p = [] ↔ l'.rdropWhile p = []) := by
    have hone : ∀ {s : σ} {l l' : List α}, Respace L s l l' → l.rdropWhile p = [] → l'.rdropWhile p = [] := by
      intro s l l' h hl
      rw [List.rdropWhile_eq_nil_iff] at hl ⊢
      intro a ha
      rcases h.mem a ha with ha | ha
      · exact hl a ha
      · exact hp a ha
    intro s l l' h
    exact ⟨hone h, hone h.symm⟩
  induction h with
  | nil => exact .nil
  | @same s a l l' h ih =>
    rw [rdropWhile_eq, rdropWhile_eq]
    by_cases hl : l.rdropWhile p = []
    · rw [if_pos hl, if_pos ((hnil h).1 hl)]
      exact refl _ _
    · rw [if_neg hl, if_neg fun hl' => hl ((hnil h).2 hl')]
      exact .same ih
  | @swap s a b l l' hs ha hb h ih =>
    rw [rdropWhile_eq, rdropWhile_eq]
    by_cases hl : l.rdropWhile p = []
    · rw [if_pos hl, if_pos ((hnil h).1 hl), if_pos (hp _ ha), if_pos (hp _ hb)]
      exact .nil
    · rw [if_neg hl, if_neg fun hl' => hl ((hnil h).2 hl')]
      exact .swap hs ha hb ih
  | @more s a b l l' hs ha hb h ih =>
    rw [rdropWhile_eq p a]
    split
    · rename_i hl
      rw [if_pos (hp _ ha), (hnil h).1 hl]
      exact .nil
    · rename_i hl
      rw [rdropWhile_eq p b, if_pos (hp _ hb)] at hl ih ⊢
      by_cases hrest : l.rdropWhile p = []
      · rw [if_pos hrest] at hl
        exact absurd rfl hl
      · rw [if_neg hrest] at ih ⊢
        exact .more hs ha hb ih
  | @fewer s a b l l' hs ha hb h ih =>
    rw [rdropWhile_eq p a]
    split
    · rename_i hl
      rw [if_pos (hp _ ha), (hnil h).2 hl]
      exact .nil
    · rename_i hl
      rw [rdropWhile_eq p b, if_pos (hp _ hb)] at hl ih ⊢
      by_cases hrest : l'.rdropWhile p = []
      · rw [if_pos hrest] at hl
        exact absurd rfl hl
      · rw [if_neg hrest] at ih ⊢
        exact .fewer hs ha hb ih

end Respace

end

end Text
