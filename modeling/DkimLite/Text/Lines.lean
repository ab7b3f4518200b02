import DkimLite.Rust.Bytes
import DkimLite.Text.Wsp

/-!
# Lines of a byte string

`splitLines` cuts at CRLF, at a lone CR and at a lone LF; `joinLines` writes lines with CRLF.
`joinLines_inj` is the unique reading a verifier of CRLF-terminated lines relies on: lines
without an LF in them can be read back from their concatenation.
-/

namespace Text
open Rust

/-- White space of RFC 5322 (`WSP`): space and tab. -/
def isWsp (b : UInt8) : Bool := b == SP || b == TAB

/-- A run of spaces and tabs. -/
def Blank (w : Bytes) : Prop := ∀ b ∈ w, isWsp b = true

theorem Blank.append {v w : Bytes} (hv : Blank v) (hw : Blank w) : Blank (v ++ w) := by
  intro b hb
  rcases List.mem_append.1 hb with hb | hb
  · exact hv b hb
  · exact hw b hb

theorem blank_nil : Blank [] := by intro b hb; cases hb

theorem wsp_cases {b : UInt8} (h : isWsp b = true) : b = SP ∨ b = TAB := by simpa [isWsp] using h

/-- White space and line ends. -/
def isLwsp (b : UInt8) : Bool := b == SP || b == TAB || b == CR || b == LF

/-- Every line end (CRLF, lone CR, lone LF) becomes a single LF. -/
def lineEnds : Bytes → Bytes
  | [] => []
  | [b] => [if b = CR then LF else b]
  | b :: c :: r =>
    if b = CR ∧ c = LF then LF :: lineEnds r
    else (if b = CR then LF else b) :: lineEnds (c :: r)

def splitLines (bs : Bytes) : List Bytes := (lineEnds bs).splitOn LF

def joinLines (ls : List Bytes) : Bytes := ls.flatMap (· ++ CRLF)

@[simp] theorem joinLines_nil : joinLines [] = [] := rfl
@[simp] theorem joinLines_cons (l : Bytes) (ls : List Bytes) : joinLines (l :: ls) = l ++ CRLF ++ joinLines ls := by
  simp [joinLines]
@[simp] theorem joinLines_append (a b : List Bytes) : joinLines (a ++ b) = joinLines a ++ joinLines b := by
  simp [joinLines]

theorem length_joinLines_replicate_nil (n : Nat) : (joinLines (List.replicate n [])).length = 2 * n := by
  induction n with
  | zero => rfl
  | succ n ih => rw [List.replicate_succ, joinLines_cons, List.length_append, ih]; simp [CRLF]; omega

/-- Unfolding: every CRLF that stands before a space or tab is removed. -/
def removeFolds : Bytes → Bytes
  | b :: c :: d :: r =>
    if b = CR ∧ c = LF ∧ isWsp d then removeFolds (d :: r) else b :: removeFolds (c :: d :: r)
  | l => l

theorem removeFolds_other {b : UInt8} (hb : b ≠ CR) (r : Bytes) : removeFolds (b :: r) = b :: removeFolds r := by
  match r with
  | [] => rfl
  | [c] => rfl
  | c :: d :: r => simp [removeFolds, hb]

theorem removeFolds_fold {d : UInt8} (hd : isWsp d = true) (r : Bytes) :
    removeFolds (CR :: LF :: d :: r) = removeFolds (d :: r) := by
  rw [removeFolds, if_pos ⟨rfl, rfl, hd⟩]

theorem mem_intercalate {α : Type} {x a : α} : ∀ {ls : List (List α)}, a ∈ [x].intercalate ls →
    a = x ∨ ∃ l ∈ ls, a ∈ l
  | [], h => by cases h
  | [l], h => Or.inr ⟨l, by simp, by simpa using h⟩
  | l :: l' :: ls, h => by
    rw [List.intercalate_cons_cons] at h
    simp only [List.mem_append, List.mem_singleton] at h
    rcases h with (h | h) | h
    · exact Or.inr ⟨l, by simp, h⟩
    · exact Or.inl h
    · rcases mem_intercalate h with h | ⟨m, hm, ham⟩
      · exact Or.inl h
      · exact Or.inr ⟨m, List.mem_cons_of_mem _ hm, ham⟩

theorem mem_intercalate_of_mem {α : Type} {x a : α} : ∀ {ls : List (List α)} {l : List α}, l ∈ ls → a ∈ l →
    a ∈ [x].intercalate ls
  | [], _, h, _ => by cases h
  | [l], l', h, ha => by
    obtain rfl := List.mem_singleton.1 h
    simpa using ha
  | l :: l' :: ls, m, h, ha => by
    rw [List.intercalate_cons_cons, List.append_assoc]
    rcases List.mem_cons.1 h with rfl | h
    · exact List.mem_append_left _ ha
    · exact List.mem_append_right _ (List.mem_append_right _ (mem_intercalate_of_mem h ha))

/-! ## `lineEnds`, byte by byte -/

theorem lineEnds_other {b : UInt8} (hb : b ≠ CR) (r : Bytes) : lineEnds (b :: r) = b :: lineEnds r := by
  cases r <;> simp [lineEnds, hb]

@[simp] theorem lineEnds_cr_nil : lineEnds [CR] = [LF] := rfl

@[simp] theorem lineEnds_crlf (r : Bytes) : lineEnds (CR :: LF :: r) = LF :: lineEnds r := by simp [lineEnds]

theorem lineEnds_cr_cons {b : UInt8} (hb : b ≠ LF) (r : Bytes) :
    lineEnds (CR :: b :: r) = LF :: lineEnds (b :: r) := by
  simp [lineEnds, hb]

theorem lineEnds_append {w : Bytes} (hw : CR ∉ w) (l : Bytes) : lineEnds (w ++ l) = w ++ lineEnds l := by
  induction w with
  | nil => rfl
  | cons b w ih =>
    rw [List.cons_append, lineEnds_other (by rintro rfl; simp at hw), ih fun h => hw (by simp [h]), List.cons_append]

theorem lineEnds_no_cr : ∀ bs : Bytes, CR ∉ lineEnds bs
  | [] => by simp [lineEnds]
  | [b] => by
    by_cases hb : b = CR
    · subst hb
      decide
    · simpa [lineEnds, hb] using Ne.symm hb
  | b :: c :: r => by
    have hrest := lineEnds_no_cr (c :: r)
    by_cases hb : b = CR
    · subst hb
      by_cases hc : c = LF
      · subst hc
        rw [lineEnds_crlf]
        exact List.not_mem_cons_of_ne_of_not_mem (by decide) (lineEnds_no_cr r)
      · rw [lineEnds_cr_cons hc]
        exact List.not_mem_cons_of_ne_of_not_mem (by decide) hrest
    · rw [lineEnds_other hb]
      exact List.not_mem_cons_of_ne_of_not_mem (Ne.symm hb) hrest

/-- No line end is left in a line. -/
theorem splitLines_ends {bs l : Bytes} (h : l ∈ splitLines bs) : CR ∉ l ∧ LF ∉ l := by
  constructor
  · intro hcr
    have hmem : CR ∈ [LF].intercalate (splitLines bs) := mem_intercalate_of_mem h hcr
    rw [splitLines, List.intercalate_splitOn] at hmem
    exact lineEnds_no_cr bs hmem
  · intro hlf
    have := mem_splitOnP_other h LF hlf
    simp at this

/-! ## Reading CRLF lines back -/

/-- Lines joined by CRLFs are what `splitLines` finds. -/
theorem splitLines_intercalate : ∀ {ls : List Bytes}, ls ≠ [] → (∀ l ∈ ls, CR ∉ l ∧ LF ∉ l) →
    splitLines (CRLF.intercalate ls) = ls
  | [], h, _ => absurd rfl h
  | [l], _, hls => by
    obtain ⟨hcr, hlf⟩ := hls l (by simp)
    have hends := lineEnds_append hcr []
    rw [List.append_nil] at hends
    rw [List.intercalate_singleton, splitLines, hends, lineEnds, List.append_nil]
    exact List.splitOnP_eq_singleton fun b hb => by simpa using fun h : b = LF => hlf (h ▸ hb)
  | l :: l' :: ls, _, hls => by
    obtain ⟨hcr, hlf⟩ := hls l (by simp)
    have ih : splitLines (CRLF.intercalate (l' :: ls)) = l' :: ls :=
      splitLines_intercalate (by simp) fun x hx => hls x (by simp [hx])
    have hl : l.splitOnP (· == LF) = [l] :=
      List.splitOnP_eq_singleton fun b hb => by simpa using fun h : b = LF => hlf (h ▸ hb)
    rw [splitLines] at ih ⊢
    rw [List.intercalate_cons_cons, List.append_assoc, lineEnds_append hcr, CRLF, List.cons_append, List.cons_append,
      List.nil_append, lineEnds_crlf, List.splitOn, List.splitOnP_append_cons _ _ (by simp), hl]
    exact congrArg ([l] ++ ·) ih

/-- Lines ended by CRLF, read back; nothing stands after the last one. -/
theorem splitLines_joinLines {ls : List Bytes} (h : ∀ l ∈ ls, CR ∉ l ∧ LF ∉ l) :
    splitLines (joinLines ls) = ls ++ [[]] := by
  have hjoin : joinLines ls = CRLF.intercalate (ls ++ [[]]) := by
    induction ls with
    | nil => rfl
    | cons l ls ih =>
      rw [joinLines_cons, ih fun x hx => h x (List.mem_cons_of_mem _ hx), List.cons_append,
        List.intercalate_cons_of_ne_nil (by simp)]
  rw [hjoin]
  refine splitLines_intercalate (by simp) fun l hl => ?_
  rcases List.mem_append.1 hl with hl | hl
  · exact h l hl
  · obtain rfl := List.mem_singleton.1 hl
    simp

/-- Where the first LF stands decides what is before it. -/
theorem append_cons_inj {α : Type} {x : α} : ∀ {a b c d : List α}, x ∉ a → x ∉ c → a ++ x :: b = c ++ x :: d →
    a = c ∧ b = d
  | [], _, [], _, _, _, h => ⟨rfl, by simpa using h⟩
  | [], _, y :: c, _, _, hc, h => by simp at h; simp [h.1] at hc
  | y :: a, _, [], _, ha, _, h => by simp at h; simp [← h.1] at ha
  | y :: a, _, z :: c, _, ha, hc, h => by
    simp only [List.cons_append, List.cons.injEq] at h
    obtain ⟨rfl, h⟩ := h
    obtain ⟨rfl, rfl⟩ := append_cons_inj (fun hm => ha (by simp [hm])) (fun hm => hc (by simp [hm])) h
    exact ⟨rfl, rfl⟩

theorem joinLines_inj : ∀ {ls ls' : List Bytes} {s s' : Bytes}, (∀ l ∈ ls, LF ∉ l) → (∀ l ∈ ls', LF ∉ l) →
    LF ∉ s → LF ∉ s' → joinLines ls ++ s = joinLines ls' ++ s' → ls = ls' ∧ s = s'
  | [], [], _, _, _, _, _, _, h => ⟨rfl, by simpa using h⟩
  | [], l' :: ls', s, _, _, _, hs, _, h => by
    simp only [joinLines_nil, List.nil_append, joinLines_cons] at h
    exact absurd (by rw [h]; simp [CRLF]) hs
  | l :: ls, [], _, s', _, _, _, hs', h => by
    simp only [joinLines_nil, List.nil_append, joinLines_cons] at h
    exact absurd (by rw [← h]; simp [CRLF]) hs'
  | l :: ls, l' :: ls', s, s', hl, hl', hs, hs', h => by
    have hcr : LF ≠ CR := by decide
    have e : ∀ (l : Bytes) (x : Bytes), l ++ CRLF ++ x = (l ++ [CR]) ++ LF :: x := by
      intro l x; simp [CRLF]
    simp only [joinLines_cons, e] at h
    rw [List.append_assoc, List.append_assoc (l' ++ [CR]), List.cons_append, List.cons_append] at h
    have hno : ∀ {l : Bytes}, LF ∉ l → LF ∉ l ++ [CR] := by
      intro l h hm; simp [hcr] at hm; exact h hm
    obtain ⟨h1, h2⟩ := append_cons_inj (hno (hl l (by simp))) (hno (hl' l' (by simp))) h
    obtain ⟨rfl, rfl⟩ := joinLines_inj (fun x hx => hl x (by simp [hx])) (fun x hx => hl' x (by simp [hx]))
      hs hs' h2
    exact ⟨by rw [List.append_cancel_right h1], rfl⟩

end Text
