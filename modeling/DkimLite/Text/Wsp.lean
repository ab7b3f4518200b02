import Mathlib.Data.List.DropRight

/-!
# Collapsing runs of separators

Three ways to say "replace every run of separators by one": `collapse` says it about the
list, `words` says it through the maximal runs of the *other* elements, and `squeeze` is the
one-pass form a scanner computes, which holds a separator back until it knows that something
follows. The main results connect them:

* `rdropWhile_collapse`: collapsing and then trimming the end is `squeeze`;
* `squeeze_dropWhile`: with the start trimmed too, it is the words joined by one separator;
* `squeeze_fixed`, `squeeze_squeezed`: `Squeezed` lists are the fixed points of `squeeze`, and
  exactly what it writes;
* `squeeze_alike`: lists that differ in their separators only (`SpacedAlike`) are squeezed alike.

`p` decides what a separator is and `sp` is the one written.
-/

namespace Text

variable {α : Type} {p : α → Bool} {sp : α}

/-- Replace every run of separators by a single `sp` (the last of the run becomes it). -/
def collapse (p : α → Bool) (sp : α) : List α → List α
  | [] => []
  | b :: r =>
    if p b then
      if r.head?.any p then collapse p sp r else sp :: collapse p sp r
    else b :: collapse p sp r

/-- The maximal runs of elements that are not separators. -/
def words (p : α → Bool) (l : List α) : List (List α) := (l.splitOnP p).filter fun w => !w.isEmpty

/-- One pass: a separator is only noted (`pend`), and written when an element follows. -/
def squeeze (p : α → Bool) (sp : α) : Bool → List α → List α
  | _, [] => []
  | pend, b :: r =>
    if p b then squeeze p sp true r
    else (if pend then [sp] else []) ++ b :: squeeze p sp false r

/-! ## `squeeze` -/

@[simp] theorem squeeze_nil (pend : Bool) : squeeze p sp pend [] = [] := rfl

theorem squeeze_sep {b : α} (hb : p b = true) (pend : Bool) (r : List α) :
    squeeze p sp pend (b :: r) = squeeze p sp true r := by simp [squeeze, hb]

theorem squeeze_other {b : α} (hb : p b = false) (pend : Bool) (r : List α) :
    squeeze p sp pend (b :: r) = (if pend then [sp] else []) ++ b :: squeeze p sp false r := by
  simp [squeeze, hb]

theorem squeeze_eq_nil_iff : ∀ {pend : Bool} {l : List α}, squeeze p sp pend l = [] ↔ ∀ b ∈ l, p b = true
  | _, [] => by simp
  | pend, b :: r => by
    cases hb : p b
    · simp [squeeze_other hb, hb]
    · rw [squeeze_sep hb, squeeze_eq_nil_iff]; simp [hb]

/-- A noted separator is written before the first other element, whatever separators follow. -/
theorem squeeze_true (l : List α) :
    squeeze p sp true l = if l.dropWhile p = [] then [] else sp :: squeeze p sp false (l.dropWhile p) := by
  induction l with
  | nil => rfl
  | cons b r ih =>
    cases hb : p b
    · simp [squeeze_other hb, List.dropWhile_cons_of_neg (by simp [hb] : ¬ p b = true)]
    · rw [squeeze_sep hb, ih, List.dropWhile_cons_of_pos hb]

/-- What is written holds the separator `sp` and other elements only. -/
theorem mem_squeeze {x : α} : ∀ {pend : Bool} {l : List α}, x ∈ squeeze p sp pend l → x = sp ∨ (x ∈ l ∧ p x = false)
  | _, [], h => by simp at h
  | pend, b :: r, h => by
    cases hb : p b
    · rw [squeeze_other hb] at h
      simp only [List.mem_append, List.mem_cons] at h
      rcases h with h | rfl | h
      · cases pend <;> simp at h; exact Or.inl h
      · exact Or.inr ⟨by simp, hb⟩
      · rcases mem_squeeze h with h | ⟨h, hx⟩
        · exact Or.inl h
        · exact Or.inr ⟨by simp [h], hx⟩
    · rw [squeeze_sep hb] at h
      rcases mem_squeeze h with h | ⟨h, hx⟩
      · exact Or.inl h
      · exact Or.inr ⟨by simp [h], hx⟩

/-! ## `collapse` -/

theorem rdropWhile_cons {q : α → Bool} {a : α} (l : List α) (h : q a = false) :
    (a :: l).rdropWhile q = a :: l.rdropWhile q := by
  induction l using List.reverseRecOn with
  | nil => simp [List.rdropWhile_singleton, h]
  | append_singleton l x ih =>
    rw [← List.cons_append, List.rdropWhile_concat, List.rdropWhile_concat, ih]
    split <;> rfl

theorem rdropWhile_cons_of_ne_nil {q : α → Bool} (a : α) {l : List α} (h : l.rdropWhile q ≠ []) :
    (a :: l).rdropWhile q = a :: l.rdropWhile q := by
  induction l using List.reverseRecOn with
  | nil => simp at h
  | append_singleton l x ih =>
    rw [← List.cons_append, List.rdropWhile_concat, List.rdropWhile_concat]
    by_cases hx : q x = true
    · rw [List.rdropWhile_concat, if_pos hx] at h
      simp [hx, ih h]
    · simp [hx]

/-- **Collapse, then trim the end.** `q` is the test the end is trimmed with; it has to hold of
the separator written and of no other element. -/
theorem rdropWhile_collapse {q : α → Bool} (hsp : q sp = true) (hq : ∀ b, p b = false → q b = false) :
    ∀ l : List α, (collapse p sp l).rdropWhile q = squeeze p sp false l ∧
      ∀ w, p w = true → (collapse p sp (w :: l)).rdropWhile q = squeeze p sp true l := by
  intro l
  induction l with
  | nil =>
    refine ⟨rfl, fun w hw => ?_⟩
    simp [collapse, hw, List.rdropWhile_singleton, hsp]
  | cons b r ih =>
    cases hb : p b
    · have h1 : (collapse p sp (b :: r)).rdropWhile q = b :: squeeze p sp false r := by
        simp only [collapse, hb, Bool.false_eq_true, if_false]
        rw [rdropWhile_cons _ (hq b hb), ih.1]
      refine ⟨by rw [h1, squeeze_other hb]; rfl, fun w hw => ?_⟩
      have h2 : collapse p sp (w :: b :: r) = sp :: collapse p sp (b :: r) := by
        rw [collapse]; simp [hw, hb]
      rw [h2, rdropWhile_cons_of_ne_nil sp (by rw [h1]; simp), h1, squeeze_other hb]
      rfl
    · refine ⟨by rw [ih.2 b hb, squeeze_sep hb], fun w hw => ?_⟩
      have h2 : collapse p sp (w :: b :: r) = collapse p sp (b :: r) := by
        rw [collapse]; simp [hw, hb]
      rw [h2, ih.2 b hb, squeeze_sep hb]

/-- Trimming the start commutes with collapsing. -/
theorem dropWhile_collapse {q : α → Bool} (hsp : q sp = true) (hq : ∀ b, p b = false → q b = false)
    (l : List α) : (collapse p sp l).dropWhile q = collapse p sp (l.dropWhile p) := by
  induction l with
  | nil => rfl
  | cons b r ih =>
    cases hb : p b
    · rw [List.dropWhile_cons_of_neg (by simp [hb] : ¬ p b = true)]
      simp [collapse, hb, hq b hb]
    · rw [List.dropWhile_cons_of_pos hb, ← ih]
      simp only [collapse, hb, if_true]
      split
      · rfl
      · simp [hsp]

/-! ## `words` -/

theorem words_sep {b : α} (hb : p b = true) (r : List α) : words p (b :: r) = words p r := by
  simp [words, List.splitOnP_cons_eq_if_modifyHead, hb]

theorem words_dropWhile (l : List α) : words p (l.dropWhile p) = words p l := by
  induction l with
  | nil => rfl
  | cons b r ih =>
    cases hb : p b
    · rw [List.dropWhile_cons_of_neg (by simp [hb] : ¬ p b = true)]
    · rw [List.dropWhile_cons_of_pos hb, ih, words_sep hb]

theorem words_of_others {w : List α} (hne : w ≠ []) (hw : ∀ b ∈ w, p b = false) : words p w = [w] := by
  cases w with
  | nil => exact absurd rfl hne
  | cons b w => simp [words, List.splitOnP_eq_singleton hw]

theorem words_append_sep {w : List α} (hne : w ≠ []) (hw : ∀ b ∈ w, p b = false) {b : α} (hb : p b = true)
    (r : List α) : words p (w ++ b :: r) = w :: words p r := by
  have h := List.splitOnP_append_cons w r hb
  rw [List.splitOnP_eq_singleton hw] at h
  cases w with
  | nil => exact absurd rfl hne
  | cons x w => rw [words, h]; simp [words]

/-- Before a word an element joins it; elsewhere it is a word of its own. -/
theorem words_other {b : α} (hb : p b = false) (l : List α) :
    words p (b :: l) = if l.head?.any (!p ·) then (words p l).modifyHead (b :: ·) else [b] :: words p l := by
  have hone : ∀ x ∈ [b], p x = false := by simpa using hb
  cases l with
  | nil => exact words_of_others (by simp) hone
  | cons c l =>
    cases hc : p c with
    | true =>
      have := words_append_sep (by simp) hone hc l
      simpa [hc, words_sep hc] using this
    | false =>
      obtain ⟨v, vs, hsplit⟩ := List.exists_cons_of_ne_nil (List.splitOnP_ne_nil p l)
      simp [words, List.splitOnP_cons_eq_if_modifyHead, hb, hc, hsplit]

theorem mem_words {w : List α} : ∀ {l : List α}, w ∈ words p l → w ≠ [] := by
  intro l h
  have := (List.mem_filter.1 h).2
  rintro rfl; simp at this

theorem mem_splitOnP_other : ∀ {l w : List α}, w ∈ l.splitOnP p → ∀ b ∈ w, p b = false
  | [], w, h, b, hb => by
    obtain rfl : w = [] := by simpa using h
    cases hb
  | a :: l, w, h, b, hb => by
    rw [List.splitOnP_cons_eq_if_modifyHead] at h
    cases ha : p a with
    | true =>
      rw [if_pos ha, List.mem_cons] at h
      rcases h with rfl | h
      · cases hb
      · exact mem_splitOnP_other h b hb
    | false =>
      rw [if_neg (by simp [ha])] at h
      cases hsplit : l.splitOnP p with
      | nil => exact absurd hsplit (List.splitOnP_ne_nil p l)
      | cons v vs =>
        rw [hsplit, List.modifyHead_cons, List.mem_cons] at h
        rcases h with rfl | h
        · rcases List.mem_cons.1 hb with rfl | hb
          · exact ha
          · exact mem_splitOnP_other (by rw [hsplit]; exact List.mem_cons_self) b hb
        · exact mem_splitOnP_other (by rw [hsplit]; exact List.mem_cons_of_mem _ h) b hb

theorem mem_words_other {l w : List α} (h : w ∈ words p l) : ∀ b ∈ w, p b = false :=
  mem_splitOnP_other (List.mem_filter.1 h).1

/-- A word in progress, then the rest of the list. -/
theorem append_squeeze (n : Nat) : ∀ (w l : List α), l.length < n → w ≠ [] → (∀ b ∈ w, p b = false) →
    w ++ squeeze p sp false l = [sp].intercalate (words p (w ++ l)) := by
  induction n with
  | zero => intro w l h; omega
  | succ n ih =>
    intro w l hl hne hw
    cases l with
    | nil => simp [words_of_others hne hw]
    | cons b r =>
      simp only [List.length_cons] at hl
      cases hb : p b
      · rw [squeeze_other hb]
        have := ih (w ++ [b]) r (by omega) (by simp) (by
          intro x hx; rcases List.mem_append.1 hx with hx | hx
          · exact hw x hx
          · simp at hx; subst hx; exact hb)
        simpa using this
      · rw [squeeze_sep hb, words_append_sep hne hw hb, squeeze_true, ← words_dropWhile r]
        cases hr : r.dropWhile p with
        | nil => simp [words]
        | cons c t =>
          have hc : p c = false := by
            have := List.head?_dropWhile_not p r
            rw [hr] at this; simpa using this
          have hlt : t.length < n := by
            have := (List.dropWhile_suffix p (l := r)).length_le
            rw [hr] at this; simp only [List.length_cons] at this; omega
          have hrest := ih [c] t hlt (by simp) (by simpa using hc)
          rw [List.singleton_append] at hrest
          have hsq : squeeze p sp false (c :: t) = [c] ++ squeeze p sp false t := by
            rw [squeeze_other hc]; rfl
          have hwne : words p (c :: t) ≠ [] := by
            intro h0; rw [List.singleton_append, h0] at hrest; simp at hrest
          rw [hsq, List.singleton_append, hrest]
          simp [List.intercalate_cons_of_ne_nil hwne]

/-- **Trim both ends and collapse: the words, joined by single separators.** -/
theorem squeeze_dropWhile (l : List α) :
    squeeze p sp false (l.dropWhile p) = [sp].intercalate (words p l) := by
  rw [← words_dropWhile l]
  cases hl : l.dropWhile p with
  | nil => simp [words]
  | cons c t =>
    have hc : p c = false := by
      have := List.head?_dropWhile_not p l
      rw [hl] at this; simpa using this
    have : [c] ++ squeeze p sp false t = [sp].intercalate (words p ([c] ++ t)) :=
      append_squeeze (t.length + 1) [c] t (by omega) (by simp) (by simpa using hc)
    simpa [squeeze_other hc] using this

/-! ## Squeezed lists -/

/-- What squeezing leaves: single separators `sp` between other elements, none at the end. -/
structure Squeezed (p : α → Bool) (sp : α) (l : List α) : Prop where
  only : ∀ b ∈ l, p b = true → b = sp
  single : ¬ [sp, sp] <:+: l
  ended : l.getLast? ≠ some sp

theorem Squeezed.nil : Squeezed p sp [] := ⟨by simp, by simp, by simp⟩

theorem Squeezed.tail {b : α} {l : List α} (h : Squeezed p sp (b :: l)) : Squeezed p sp l where
  only c hc := h.only c (List.mem_cons_of_mem _ hc)
  single hinfix := h.single (List.infix_cons hinfix)
  ended hlast := h.ended (by rw [List.getLast?_cons, hlast, Option.getD_some])

/-- After a separator something else follows. -/
theorem Squeezed.next {l : List α} (h : Squeezed p sp (sp :: l)) : ∃ c r, l = c :: r ∧ p c = false := by
  cases l with
  | nil => exact absurd rfl h.ended
  | cons c r =>
    refine ⟨c, r, rfl, ?_⟩
    by_contra hc
    obtain rfl : c = sp := h.only c (by simp) (by simpa using hc)
    exact h.single ⟨[], r, rfl⟩

/-- A squeezed list is its own squeezed form. -/
theorem squeeze_fixed : ∀ {l : List α}, Squeezed p sp l → squeeze p sp false l = l
  | [], _ => rfl
  | b :: r, h => by
    cases hb : p b with
    | false => rw [squeeze_other hb, squeeze_fixed h.tail]; rfl
    | true =>
      obtain rfl : sp = b := (h.only b (by simp) hb).symm
      obtain ⟨c, r, rfl, hc⟩ := h.next
      rw [squeeze_sep hb, squeeze_other hc, squeeze_fixed h.tail.tail]
      rfl

/-- The element after a noted separator is not one. -/
theorem squeeze_single (hsp : p sp = true) : ∀ (pend : Bool) (l : List α), ¬ [sp, sp] <:+: squeeze p sp pend l
  | _, [] => by simp
  | pend, b :: r => by
    cases hb : p b with
    | true => rw [squeeze_sep hb]; exact squeeze_single hsp true r
    | false =>
      have hne : sp ≠ b := by rintro rfl; rw [hsp] at hb; cases hb
      have hrest := squeeze_single hsp false r
      rw [squeeze_other hb]
      cases pend <;> simp [List.infix_cons_iff, hne, hrest]

theorem squeeze_ended (hsp : p sp = true) : ∀ (pend : Bool) (l : List α), (squeeze p sp pend l).getLast? ≠ some sp
  | _, [] => by simp
  | pend, b :: r => by
    cases hb : p b with
    | true => rw [squeeze_sep hb]; exact squeeze_ended hsp true r
    | false =>
      have hne : b ≠ sp := by rintro rfl; rw [hsp] at hb; cases hb
      have hrest := squeeze_ended hsp false r
      rw [squeeze_other hb, List.getLast?_append, List.getLast?_cons]
      cases hlast : (squeeze p sp false r).getLast? with
      | none => simpa using hne
      | some c => simpa [hlast] using hrest

theorem squeeze_squeezed (hsp : p sp = true) (pend : Bool) (l : List α) : Squeezed p sp (squeeze p sp pend l) where
  only b hb hpb := by
    rcases mem_squeeze hb with h | ⟨-, h⟩
    · exact h
    · rw [h] at hpb; cases hpb
  single := squeeze_single hsp pend l
  ended := squeeze_ended hsp pend l

/-- Two lists that differ in their separators only: in the kind and the number of the separators
of a run, and in the ones at the end. -/
inductive SpacedAlike (p : α → Bool) : List α → List α → Prop
  | trailing {w w' : List α} : (∀ b ∈ w, p b = true) → (∀ b ∈ w', p b = true) → SpacedAlike p w w'
  | run {w w' l l' : List α} : w ≠ [] → w' ≠ [] → (∀ b ∈ w, p b = true) → (∀ b ∈ w', p b = true) →
      SpacedAlike p l l' → SpacedAlike p (w ++ l) (w' ++ l')
  | other {b : α} {l l' : List α} : SpacedAlike p l l' → SpacedAlike p (b :: l) (b :: l')

theorem squeeze_run : ∀ {w : List α}, w ≠ [] → (∀ b ∈ w, p b = true) → ∀ (pend : Bool) (l : List α),
    squeeze p sp pend (w ++ l) = squeeze p sp true l
  | [], hne, _, _, _ => absurd rfl hne
  | [b], _, hw, pend, l => squeeze_sep (hw b (by simp)) pend l
  | b :: c :: w, _, hw, pend, l => by
    rw [List.cons_append, squeeze_sep (hw b (by simp))]
    exact squeeze_run (by simp) (fun x hx => hw x (List.mem_cons_of_mem _ hx)) true l

/-- Lists that differ in their separators are squeezed alike. -/
theorem squeeze_alike {l l' : List α} (h : SpacedAlike p l l') (pend : Bool) :
    squeeze p sp pend l = squeeze p sp pend l' := by
  induction h generalizing pend with
  | trailing hw hw' => rw [squeeze_eq_nil_iff.2 hw, squeeze_eq_nil_iff.2 hw']
  | run hne hne' hw hw' _ ih => rw [squeeze_run hne hw, squeeze_run hne' hw', ih]
  | @other b l l' _ ih =>
    cases hb : p b with
    | true => rw [squeeze_sep hb, squeeze_sep hb, ih]
    | false => rw [squeeze_other hb, squeeze_other hb, ih]

end Text
