import DkimLite.MailboxLex
import DkimLite.Selection
import DkimLite.Text.Respace

/-!
# Folding a header field anew

`Refold` relates two values that differ in how they are folded: at some places one has a run of
spaces and tabs and the other a line break and such a run, or a run of its own. Where this may be
is said by a lexer of the value. For a From field it is the lexer of the comment loop, so that no
quoted-pair is broken; other fields have no such places.

| here | there |
| --- | --- |
| `words_respace` | `canonicalize_header` (`src/dkim.rs:212-239`) takes a CRLF and a bare LF alike for white space |
| `unfold_refold` | the unfolding of `from_domain` (`:249-269`), for folds of CRLF |
| `MailboxText.respace` | the rest of it, from the comments on (`:270-371`) |

`refolded_signed_alike` puts them together. A bare LF in a From field is refused by `from_domain`,
as `bare_fold_refused` shows.
-/

namespace DkimLite
open Rust Text

/-! ## Refolded values -/

/-- White space in a value: spaces and tabs, after one of the line breaks `ends` or none. -/
inductive Gap (ends : List Bytes) : Bytes → Prop
  | blanks {w : Bytes} : w ≠ [] → Blank w → Gap ends w
  | fold {e w : Bytes} : e ∈ ends → w ≠ [] → Blank w → Gap ends (e ++ w)

/-- The second value is the first with gaps put for others where the lexer is `free`. -/
inductive Refold {σ : Type} (next : σ → UInt8 → σ) (free : σ → Bool) (ends : List Bytes) : σ → Bytes → Bytes → Prop
  | nil {s : σ} : Refold next free ends s [] []
  | same {s : σ} {b : UInt8} {v w : Bytes} : Refold next free ends (next s b) v w → Refold next free ends s (b :: v) (b :: w)
  | gap {s : σ} {g g' v w : Bytes} : free s = true → Gap ends g → Gap ends g' → Refold next free ends s v w →
      Refold next free ends s (g ++ v) (g' ++ w)

/-- The lexer of a From field: that of the comment loop, and whether the last byte was of a line break. -/
def fromNext : Lex × Bool → UInt8 → Lex × Bool
  | (s, _), b => if b = CR ∨ b = LF then (s, true) else (s.next b, false)

/-- Outside a quoted-pair, and not within a fold. -/
def fromFree : Lex × Bool → Bool
  | (s, broken) => !s.escaped && !broken

/-- A field folded anew; `ends` are the line breaks of the folds of a From field. -/
def Header.Refolded (ends : List Bytes) (h h' : Header) : Prop :=
  h.name = h'.name ∧
    if h.is fromName then Refold fromNext fromFree ends (.top, false) h.value h'.value
    else Refold (fun _ _ => ()) (fun _ => true) [CRLF, [LF]] () h.value h'.value

section
variable {σ : Type} {next : σ → UInt8 → σ} {free : σ → Bool} {ends : List Bytes}

theorem Refold.symm {s : σ} {v w : Bytes} (h : Refold next free ends s v w) : Refold next free ends s w v := by
  induction h with
  | nil => exact .nil
  | same _ ih => exact .same ih
  | gap hs hg hg' _ ih => exact .gap hs hg' hg ih

theorem Header.is_name {h h' : Header} (hname : h.name = h'.name) (name : Bytes) : h.is name = h'.is name := by
  rw [Header.is, Header.is, hname]

/-! ## Canonical fields -/

/-- White space and line breaks, free everywhere. -/
def lwspLexer : Lexer UInt8 Unit := ⟨fun _ _ => (), fun _ => true, isLwsp, fun _ _ => rfl⟩

theorem Gap.lwsp (hends : ∀ e ∈ ends, ∀ b ∈ e, isLwsp b = true) {g : Bytes} (h : Gap ends g) : g ≠ [] ∧ ∀ b ∈ g, isLwsp b = true := by
  have hblank : ∀ {w : Bytes}, Blank w → ∀ b ∈ w, isLwsp b = true := by
    intro w hw b hb
    rcases wsp_cases (hw b hb) with rfl | rfl <;> rfl
  cases h with
  | blanks hne hw => exact ⟨hne, hblank hw⟩
  | fold he hne hw =>
    refine ⟨by simp [hne], fun b hb => ?_⟩
    rcases List.mem_append.1 hb with hb | hb
    · exact hends _ he b hb
    · exact hblank hw b hb

theorem breaks_lwsp : ∀ e ∈ [CRLF, [LF]], ∀ b ∈ e, isLwsp b = true := by simp [CRLF, isLwsp]

theorem crlf_lwsp : ∀ e ∈ [CRLF], ∀ b ∈ e, isLwsp b = true := by simp [CRLF, isLwsp]

theorem Refold.lwsp (hends : ∀ e ∈ ends, ∀ b ∈ e, isLwsp b = true) {s : σ} {v w : Bytes} (h : Refold next free ends s v w) :
    Respace lwspLexer () v w := by
  induction h with
  | nil => exact .nil
  | same _ ih => exact .same ih
  | gap _ hg hg' _ ih =>
    obtain ⟨hne, hblank⟩ := hg.lwsp hends
    obtain ⟨hne', hblank'⟩ := hg'.lwsp hends
    exact Respace.run rfl hne hne' hblank hblank' ih

/-- **White space alone separates words.** -/
theorem words_respace {v w : Bytes} (h : Respace lwspLexer () v w) :
    words isLwsp v = words isLwsp w ∧ v.head?.any (!isLwsp ·) = w.head?.any (!isLwsp ·) := by
  generalize hs : () = s at h
  induction h with
  | nil => exact ⟨rfl, rfl⟩
  | @same s b v w _ ih =>
    obtain ⟨hwords, hhead⟩ := ih rfl
    refine ⟨?_, rfl⟩
    cases hb : isLwsp b with
    | true => rw [words_sep hb, words_sep hb, hwords]
    | false => rw [words_other hb, words_other hb, hwords, hhead]
  | @swap s a b v w _ ha hb _ ih =>
    have ha : isLwsp a = true := ha
    have hb : isLwsp b = true := hb
    exact ⟨by rw [words_sep ha, words_sep hb, (ih rfl).1], by simp [ha, hb]⟩
  | @more s a b v w _ ha hb _ ih =>
    have ha : isLwsp a = true := ha
    have hb : isLwsp b = true := hb
    obtain ⟨hwords, hhead⟩ := ih rfl
    exact ⟨by rw [words_sep ha, hwords], by rw [← hhead]; simp [ha, hb]⟩
  | @fewer s a b v w _ ha hb _ ih =>
    have ha : isLwsp a = true := ha
    have hb : isLwsp b = true := hb
    obtain ⟨hwords, hhead⟩ := ih rfl
    exact ⟨by rw [words_sep ha, hwords], by rw [hhead]; simp [ha, hb]⟩

theorem Refold.relaxedValue (hends : ∀ e ∈ ends, ∀ b ∈ e, isLwsp b = true) {s : σ} {v w : Bytes}
    (h : Refold next free ends s v w) : relaxedValue v = DkimLite.relaxedValue w := by
  rw [DkimLite.relaxedValue, DkimLite.relaxedValue, (words_respace (h.lwsp hends)).1]

end

theorem Header.Refolded.relaxedField {ends : List Bytes} (hends : ∀ e ∈ ends, ∀ b ∈ e, isLwsp b = true) {h h' : Header}
    (hr : h.Refolded ends h') : relaxedField h.name h.value = DkimLite.relaxedField h'.name h'.value := by
  obtain ⟨hname, hvalue⟩ := hr
  rw [DkimLite.relaxedField, DkimLite.relaxedField, hname]
  split at hvalue
  · rw [hvalue.relaxedValue hends]
  · rw [hvalue.relaxedValue breaks_lwsp]

/-- **The fields signed are the same**, whatever the folds of the list. -/
theorem canonicalOf_refolded {ends : List Bytes} (hends : ∀ e ∈ ends, ∀ b ∈ e, isLwsp b = true) {headers headers' : List Header}
    (h : List.Forall₂ (Header.Refolded ends) headers headers') (name : Bytes) :
    canonicalOf headers name = canonicalOf headers' name := by
  suffices hmap : (headers.filter (·.is name)).map (fun h => relaxedField h.name h.value) =
      (headers'.filter (·.is name)).map fun h => relaxedField h.name h.value by
    rw [canonicalOf_eq_getLast?, canonicalOf_eq_getLast?, hmap]
  induction h with
  | nil => rfl
  | @cons a b hs hs' hr _ ih =>
    rw [List.filter_cons, List.filter_cons, Header.is_name hr.1]
    split
    · rw [List.map_cons, List.map_cons, hr.relaxedField hends, ih]
    · exact ih

/-! ## Unfolding -/

/-- The comment loop as a lexer. -/
def byteLexer : Lexer UInt8 Lex where
  next := Lex.next
  free s := !s.escaped
  blank := isWsp
  next_blank {s b} hs hb := by
    obtain ⟨quoted, escaped, depth⟩ := s
    obtain rfl : escaped = false := by simpa using hs
    rcases wsp_cases hb with rfl | rfl <;> simp [Lex.next, SP, TAB, LPAREN, RPAREN, BACKSLASH, DQUOTE]

/-- Within a fold nothing is refolded. -/
theorem Refold.broken {ends : List Bytes} {s : Lex} {v w : Bytes} (h : Refold fromNext fromFree ends (s, true) v w) :
    (v = [] ∧ w = []) ∨ ∃ b v' w', v = b :: v' ∧ w = b :: w' ∧ Refold fromNext fromFree ends (fromNext (s, true) b) v' w' := by
  cases h with
  | nil => exact Or.inl ⟨rfl, rfl⟩
  | same h => exact Or.inr ⟨_, _, _, rfl, rfl, h⟩
  | gap hs => simp [fromFree] at hs

theorem Gap.unfolds {g : Bytes} (h : Gap [CRLF] g) : ∃ w, w ≠ [] ∧ Blank w ∧ Unfolds g w := by
  cases h with
  | blanks hne hw => exact ⟨_, hne, hw, blank_unfolds hw⟩
  | fold he hne hw =>
    obtain rfl := List.mem_singleton.1 he
    exact ⟨_, hne, hw, blank_unfolds_fold hw hne⟩

theorem unfoldable_lf (r : Bytes) : unfoldable (LF :: r) = false := by
  rw [unfoldable_other (by decide)]
  rfl

theorem unfoldable_cr {b : UInt8} (hb : b ≠ LF) (r : Bytes) : unfoldable (CR :: b :: r) = false := by
  cases r <;> simp [unfoldable, hb]

theorem unfoldable_break {d : UInt8} (hd : isWsp d = false) (r : Bytes) : unfoldable (CR :: LF :: d :: r) = false := by
  simp [unfoldable, hd]

/-- **Unfolding leaves two texts that differ in their blanks**, or refuses both. -/
theorem unfold_refold : ∀ (n : Nat) {s : Lex} {v w : Bytes}, v.length < n → Refold fromNext fromFree [CRLF] (s, false) v w →
    unfoldable v = unfoldable w ∧ (unfoldable v = true → Respace byteLexer s (removeFolds v) (removeFolds w)) := by
  intro n
  induction n with
  | zero =>
    intro s v w hn
    omega
  | succ n ih =>
    intro s v w hn h
    cases h with
    | nil => exact ⟨rfl, fun _ => .nil⟩
    | @same _ b v w h =>
      have hn : v.length < n := by simpa using hn
      by_cases hcr : b = CR
      · subst hcr
        rw [show fromNext (s, false) CR = (s, true) from rfl] at h
        rcases h.broken with ⟨rfl, rfl⟩ | ⟨c, v, w, rfl, rfl, hafter⟩
        · exact ⟨rfl, fun hun => by cases hun⟩
        by_cases hc : c = LF
        swap
        · rw [unfoldable_cr hc, unfoldable_cr hc]
          exact ⟨rfl, fun hun => by cases hun⟩
        subst hc
        rw [show fromNext (s, true) LF = (s, true) from rfl] at hafter
        rcases hafter.broken with ⟨rfl, rfl⟩ | ⟨d, v, w, rfl, rfl, hblank⟩
        · exact ⟨rfl, fun hun => by cases hun⟩
        cases hd : isWsp d with
        | false =>
          rw [unfoldable_break hd, unfoldable_break hd]
          exact ⟨rfl, fun hun => by cases hun⟩
        | true =>
          have hplain : d ≠ CR ∧ d ≠ LF ∧ (!isAsciiControl d || d == TAB) = true := by
            rcases wsp_cases hd with rfl | rfl <;> decide
          rw [show fromNext (s, true) d = (s.next d, false) by simp [fromNext, hplain]] at hblank
          obtain ⟨hsame, hrest⟩ := ih (by simp at hn; omega) hblank
          rw [unfoldable_fold hd, unfoldable_fold hd, removeFolds_fold hd, removeFolds_fold hd, unfoldable_other hplain.1,
            unfoldable_other hplain.1, removeFolds_other hplain.1, removeFolds_other hplain.1, hplain.2.2]
          exact ⟨by rw [hsame], fun hun => .same (hrest (by simpa using hun))⟩
      by_cases hlf : b = LF
      · subst hlf
        rw [unfoldable_lf, unfoldable_lf]
        exact ⟨rfl, fun hun => by cases hun⟩
      rw [show fromNext (s, false) b = (s.next b, false) by simp [fromNext, hcr, hlf]] at h
      obtain ⟨hsame, hrest⟩ := ih hn h
      rw [unfoldable_other hcr, unfoldable_other hcr, removeFolds_other hcr, removeFolds_other hcr]
      refine ⟨by rw [hsame], fun hun => .same (hrest ?_)⟩
      simp only [Bool.and_eq_true] at hun
      exact hun.2
    | @gap _ g g' v w hs hg hg' h =>
      have hgne : g ≠ [] := (hg.lwsp crlf_lwsp).1
      obtain ⟨r, hne, hblank, hg⟩ := hg.unfolds
      obtain ⟨r', hne', hblank', hg'⟩ := hg'.unfolds
      have hlen : v.length < n := by
        have hpos := List.length_pos_iff.2 hgne
        rw [List.length_append] at hn
        omega
      obtain ⟨hsame, hrest⟩ := ih hlen h
      rw [(hg.folds v).1, (hg.folds v).2, (hg'.folds w).1, (hg'.folds w).2]
      refine ⟨hsame, fun hun => Respace.run ?_ hne hne' hblank hblank' (hrest hun)⟩
      simp only [fromFree, Bool.and_eq_true] at hs
      exact hs.1

/-! ## Comments -/

theorem blank_step {s : Lex} (hs : byteLexer.free s = true) {b : UInt8} (hb : isWsp b = true) :
    s.escaped = false ∧ s.stray b = false ∧ s.next b = s ∧ s.emit b = if 0 < s.depth then [] else [b] := by
  obtain ⟨quoted, escaped, depth⟩ := s
  obtain rfl : escaped = false := by simpa [byteLexer] using hs
  rcases wsp_cases hb with rfl | rfl <;>
    simp [Lex.stray, Lex.next, Lex.emit, SP, TAB, LPAREN, RPAREN, BACKSLASH, DQUOTE]

theorem lexRun_respace {s : Lex} {v w : Bytes} (h : Respace byteLexer s v w) : lexRun s v = lexRun s w := by
  refine h.congr (f := lexRun) (fun s a l l' ih => ?_) fun s a l hs ha => ?_
  · rw [lexRun, lexRun]
    exact if_congr Iff.rfl rfl ih
  · obtain ⟨-, hstray, hnext, -⟩ := blank_step hs ha
    rw [lexRun, hstray, hnext]
    rfl

/-- The state in which the text without comments is read. -/
def Lex.outer (s : Lex) : Lex := ⟨s.quoted, s.escaped && s.depth == 0, 0⟩

/-- What is kept of a byte moves the outer state as the byte moves the state. -/
theorem Lex.outer_next (s : Lex) (b : UInt8) : (s.emit b).foldl Lex.next s.outer = (s.next b).outer := by
  obtain ⟨quoted, escaped, depth⟩ := s
  cases depth with
  | succ depth =>
    cases escaped with
    | true => simp [Lex.emit, Lex.outer, Lex.next]
    | false =>
      by_cases h1 : b = BACKSLASH
      · simp [Lex.emit, Lex.outer, Lex.next, h1]
      by_cases h2 : b = LPAREN
      · simp [Lex.emit, Lex.outer, Lex.next, h2, LPAREN, BACKSLASH]
      by_cases h3 : b = RPAREN
      · simp [Lex.emit, Lex.outer, Lex.next, h3, LPAREN, BACKSLASH, RPAREN]
      · simp [Lex.emit, Lex.outer, Lex.next, h1, h2, h3]
  | zero =>
    cases escaped with
    | true => simp [Lex.emit, Lex.outer, Lex.next]
    | false =>
      cases quoted with
      | true =>
        by_cases h1 : b = BACKSLASH
        · simp [Lex.emit, Lex.outer, Lex.next, h1]
        by_cases h2 : b = DQUOTE
        · simp [Lex.emit, Lex.outer, Lex.next, h2, DQUOTE, BACKSLASH]
        · simp [Lex.emit, Lex.outer, Lex.next, h1, h2]
      | false =>
        by_cases h1 : b = LPAREN
        · simp [Lex.emit, Lex.outer, Lex.next, h1, SP, LPAREN, DQUOTE]
        by_cases h2 : b = DQUOTE
        · simp [Lex.emit, Lex.outer, Lex.next, h2, DQUOTE, LPAREN]
        · simp [Lex.emit, Lex.outer, Lex.next, h1, h2]

theorem emit_cases (s : Lex) (b : UInt8) : s.emit b = [] ∨ ∃ c, s.emit b = [c] := by
  unfold Lex.emit
  split
  · exact Or.inl rfl
  · split <;> exact Or.inr ⟨_, rfl⟩

/-- **Two texts that differ in their blanks do so without their comments.** -/
theorem uncomment_respace {s : Lex} {v w : Bytes} (h : Respace byteLexer s v w) :
    Respace byteLexer s.outer (uncomment s v) (uncomment s w) := by
  have hfree : ∀ {s : Lex}, byteLexer.free s = true → byteLexer.free s.outer = true := by
    intro s hs
    have hesc : s.escaped = false := by simpa [byteLexer] using hs
    simp [byteLexer, Lex.outer, hesc]
  induction h with
  | nil => exact .nil
  | @same s b v w _ ih =>
    have ih : Respace byteLexer (s.next b).outer (uncomment (s.next b) v) (uncomment (s.next b) w) := ih
    rw [← s.outer_next b] at ih
    rw [uncomment, uncomment]
    rcases emit_cases s b with hemit | ⟨c, hemit⟩
    · rw [hemit] at ih ⊢
      exact ih
    · rw [hemit] at ih ⊢
      exact .same ih
  | @swap s a b v w hs ha hb _ ih =>
    obtain ⟨-, -, hnext, hemit⟩ := blank_step hs ha
    obtain ⟨-, -, hnext', hemit'⟩ := blank_step hs hb
    rw [uncomment, uncomment, hnext, hnext', hemit, hemit']
    split
    · exact ih
    · exact .swap (hfree hs) ha hb ih
  | @more s a b v w hs ha hb _ ih =>
    obtain ⟨-, -, hnext, hemit⟩ := blank_step hs ha
    obtain ⟨-, -, hnext', hemit'⟩ := blank_step hs hb
    rw [uncomment, hnext', hemit'] at ih
    rw [uncomment, hnext, hemit, uncomment, hnext', hemit']
    split
    · rename_i hd
      rw [if_pos hd] at ih
      exact ih
    · rename_i hd
      rw [if_neg hd] at ih
      exact .more (hfree hs) ha hb ih
  | @fewer s a b v w hs ha hb _ ih =>
    obtain ⟨-, -, hnext, hemit⟩ := blank_step hs ha
    obtain ⟨-, -, hnext', hemit'⟩ := blank_step hs hb
    rw [uncomment, hnext', hemit'] at ih
    rw [uncomment.eq_2 s a, hnext, hemit, uncomment, hnext', hemit']
    split
    · rename_i hd
      rw [if_pos hd] at ih
      exact ih
    · rename_i hd
      rw [if_neg hd] at ih
      exact .fewer (hfree hs) ha hb ih

/-! ## Characters -/

/-- The lexer on characters: a character is read as its bytes. -/
def charLexer : Lexer Char Lex where
  next s c := (String.utf8EncodeChar c).foldl Lex.next s
  free s := !s.escaped
  blank c := c == ' ' || c == '\t'
  next_blank {s c} hs hc := by
    have hc : c = ' ' ∨ c = '\t' := by simpa using hc
    rcases hc with rfl | rfl
    · exact byteLexer.next_blank (a := SP) hs rfl
    · exact byteLexer.next_blank (a := TAB) hs rfl

theorem blank_char {b : UInt8} (hb : isWsp b = true) : String.utf8EncodeChar (asciiChar b) = [b] ∧ charLexer.blank (asciiChar b) = true := by
  rcases wsp_cases hb with rfl | rfl <;> decide

theorem char_of_blank {c : Char} (hc : charLexer.blank c = true) : ∃ b, isWsp b = true ∧ String.utf8EncodeChar c = [b] := by
  have hc : c = ' ' ∨ c = '\t' := by simpa [charLexer] using hc
  rcases hc with rfl | rfl
  · exact ⟨SP, rfl, rfl⟩
  · exact ⟨TAB, rfl, rfl⟩

/-- A character that is no blank has no blank among its bytes. -/
theorem solid_bytes {c : Char} (hc : charLexer.blank c = false) : ∀ b ∈ String.utf8EncodeChar c, isWsp b = false := by
  intro b hb
  by_cases hlt : c.toNat < 128
  · rw [utf8_ascii hlt, List.mem_singleton] at hb
    rw [Bool.eq_false_iff]
    intro hw
    have hchar := (blank_char hw).2
    rw [hb, ← char_eq_asciiChar hlt, hc] at hchar
    cases hchar
  · have hhigh := utf8_nonascii (by omega : 128 ≤ c.toNat) b hb
    rw [Bool.eq_false_iff]
    intro hw
    rcases wsp_cases hw with rfl | rfl <;> revert hhigh <;> decide

/-- Bytes that are no blanks stand on both sides. -/
theorem respace_solid {x : Bytes} (hx : ∀ b ∈ x, isWsp b = false) {s : Lex} {v z : Bytes} (h : Respace byteLexer s (x ++ v) z) :
    ∃ z', z = x ++ z' ∧ Respace byteLexer (x.foldl Lex.next s) v z' := by
  induction x generalizing s z with
  | nil => exact ⟨z, rfl, h⟩
  | cons b x ih =>
    obtain ⟨z', rfl, hrest⟩ := h.cons_solid (Or.inl (hx b (by simp)))
    obtain ⟨z'', rfl, hlast⟩ := ih (fun y hy => hx y (by simp [hy])) hrest
    exact ⟨z'', rfl, hlast⟩

theorem Respace.same_bytes {s : Lex} : ∀ {x v w : Bytes}, Respace byteLexer (x.foldl Lex.next s) v w →
    Respace byteLexer s (x ++ v) (x ++ w) := by
  intro x
  induction x generalizing s with
  | nil => exact fun h => h
  | cons b x ih => exact fun h => .same (ih h)

theorem respace_bytes {s : Lex} {t t' : List Char} (h : Respace charLexer s t t') : Respace byteLexer s (utf8 t) (utf8 t') := by
  induction h with
  | nil => exact .nil
  | same _ ih =>
    rw [utf8_cons, utf8_cons]
    exact Respace.same_bytes ih
  | swap hs ha hb _ ih =>
    obtain ⟨a, ha, hae⟩ := char_of_blank ha
    obtain ⟨b, hb, hbe⟩ := char_of_blank hb
    rw [utf8_cons, utf8_cons, hae, hbe]
    exact .swap hs ha hb ih
  | more hs ha hb _ ih =>
    obtain ⟨a, ha, hae⟩ := char_of_blank ha
    obtain ⟨b, hb, hbe⟩ := char_of_blank hb
    rw [utf8_cons, hbe] at ih
    rw [utf8_cons, hae, utf8_cons, hbe]
    exact .more hs ha hb ih
  | fewer hs ha hb _ ih =>
    obtain ⟨a, ha, hae⟩ := char_of_blank ha
    obtain ⟨b, hb, hbe⟩ := char_of_blank hb
    rw [utf8_cons, hbe] at ih
    rw [utf8_cons (c := _) (s := _ :: _), hae, utf8_cons, hbe]
    exact .fewer hs ha hb ih

/-- A string whose bytes start with a blank starts with it. -/
theorem utf8_blank {b : UInt8} (hb : isWsp b = true) {t : List Char} {v : Bytes} (h : utf8 t = b :: v) :
    ∃ t', t = asciiChar b :: t' ∧ utf8 t' = v := by
  have hlow : b.toNat < 128 := by rcases wsp_cases hb with rfl | rfl <;> decide
  obtain ⟨l, r, rfl, hl, hr⟩ := utf8_split hlow (L := []) h
  obtain rfl : l = [] := utf8_injective hl
  exact ⟨r, rfl, hr⟩

/-- **What differs from a string in its blanks is a string.** -/
theorem respace_chars : ∀ (n : Nat) {s : Lex} {t : List Char} {z : Bytes}, t.length + z.length < n →
    Respace byteLexer s (utf8 t) z → ∃ t', z = utf8 t' ∧ Respace charLexer s t t' := by
  intro n
  induction n with
  | zero =>
    intro s t z hn
    omega
  | succ n ih =>
    intro s t z hn h
    cases t with
    | nil => exact ⟨[], h.eq_of_solid (by simp), .nil⟩
    | cons c t =>
      rw [List.length_cons] at hn
      cases hc : charLexer.blank c with
      | false =>
        rw [utf8_cons] at h
        obtain ⟨z', rfl, hrest⟩ := respace_solid (solid_bytes hc) h
        have hlen : t.length + z'.length < n := by rw [List.length_append] at hn; omega
        obtain ⟨t', rfl, hchars⟩ := ih hlen hrest
        exact ⟨c :: t', (utf8_cons c t').symm, .same hchars⟩
      | true =>
        obtain ⟨b, hb, hbe⟩ := char_of_blank hc
        have hcons : utf8 (c :: t) = b :: utf8 t := by rw [utf8_cons, hbe]; rfl
        have hnext : charLexer.next s c = s.next b := by simp [charLexer, hbe]
        rw [hcons] at h
        generalize hv : utf8 t = v at h
        cases h with
        | @same _ _ _ w hrest =>
          have hlen : t.length + w.length < n := by rw [List.length_cons] at hn; omega
          obtain ⟨t', rfl, hchars⟩ := ih hlen (hv ▸ hrest)
          exact ⟨c :: t', by rw [utf8_cons, hbe]; rfl, .same (by rwa [hnext])⟩
        | @swap _ _ b' _ w hs _ hb' hrest =>
          have hlen : t.length + w.length < n := by rw [List.length_cons] at hn; omega
          obtain ⟨t', rfl, hchars⟩ := ih hlen (hv ▸ hrest)
          obtain ⟨hbe', hblank⟩ := blank_char hb'
          exact ⟨asciiChar b' :: t', by rw [utf8_cons, hbe']; rfl, .swap hs hc hblank hchars⟩
        | @more _ _ b' v _ hs _ hb' hrest =>
          obtain ⟨t, rfl, rfl⟩ := utf8_blank hb' hv
          rw [← hv] at hrest
          obtain ⟨t', rfl, hchars⟩ := ih (by omega) hrest
          exact ⟨t', rfl, .more hs hc (blank_char hb').2 hchars⟩
        | @fewer _ a b' _ w hs ha hb' hrest =>
          have hlen : (c :: t).length + (b' :: w).length < n := by simp only [List.length_cons] at hn ⊢; omega
          obtain ⟨t', ht', hchars⟩ := ih hlen (by rwa [hcons, hv])
          obtain ⟨t', rfl, rfl⟩ := utf8_blank hb' ht'.symm
          obtain ⟨hae, hblank⟩ := blank_char ha
          exact ⟨asciiChar a :: asciiChar b' :: t', by rw [utf8_cons, hae, ht']; rfl,
            .fewer hs hblank (blank_char hb').2 hchars⟩

/-! ## Mailboxes -/

theorem blank_white_char {c : Char} (h : charLexer.blank c = true) : isWhitespace c = true := by
  have hc : c = ' ' ∨ c = '\t' := by simpa [charLexer] using h
  rcases hc with rfl | rfl <;> rfl

/-- A byte outside quoted strings that opens nothing. -/
theorem next_top {b : UInt8} (h1 : b ≠ LPAREN) (h2 : b ≠ DQUOTE) : Lex.next .top b = .top := by
  simp [Lex.next, h1, h2]

theorem foldl_top {v : Bytes} (h : ∀ b ∈ v, b ≠ LPAREN ∧ b ≠ DQUOTE) : v.foldl Lex.next .top = .top := by
  induction v with
  | nil => rfl
  | cons b v ih =>
    rw [List.foldl_cons, next_top (h b (by simp)).1 (h b (by simp)).2]
    exact ih fun x hx => h x (by simp [hx])

theorem white_next {c : Char} (h : isWhitespace c = true) : charLexer.next .top c = .top := by
  refine foldl_top fun b hb => ?_
  by_cases hlt : c.toNat < 128
  · rw [utf8_ascii hlt, List.mem_singleton] at hb
    rw [char_eq_asciiChar hlt, ← hb] at h
    revert h
    exact forall_uint8 (P := fun b => isWhitespace (asciiChar b) = true → b ≠ LPAREN ∧ b ≠ DQUOTE) (by decide +kernel) b
  · have hhigh := utf8_nonascii (by omega : 128 ≤ c.toNat) b hb
    constructor <;> rintro rfl <;> revert hhigh <;> decide

theorem foldl_chars (s : Lex) (t : List Char) : t.foldl charLexer.next s = (utf8 t).foldl Lex.next s := by
  induction t generalizing s with
  | nil => rfl
  | cons c t ih =>
    rw [List.foldl_cons, ih, utf8_cons, List.foldl_append]
    rfl

/-- **Trimmed texts differ in their blanks only.** -/
theorem trim_respace {t t' : List Char} (h : Respace charLexer .top t t') : Respace charLexer .top (trim t) (trim t') :=
  (h.dropWhile (fun _ => blank_white_char) fun _ => white_next).rdropWhile fun _ => blank_white_char

/-- A text that is trimmed to nothing stays so. -/
theorem trim_nil_respace {s : Lex} {t t' : List Char} (h : Respace charLexer s t t') (ht : trim t = []) : trim t' = [] := by
  have hall : ∀ c ∈ t, isWhitespace c = true := by
    obtain ⟨w, w', hdec, hw, hw'⟩ := trim_decomp t
    rw [ht, List.append_nil] at hdec
    rw [hdec]
    intro c hc
    rcases List.mem_append.1 hc with hc | hc
    · exact hw c hc
    · exact hw' c hc
  have hall' : ∀ c ∈ t', isWhitespace c = true := fun c hc => (h.mem c hc).elim (hall c) blank_white_char
  rw [trim, List.dropWhile_eq_nil_iff.2 hall', List.rdropWhile_nil]

/-- `display_name` skips free blanks. -/
theorem displayLoop_respace {s : Lex} {v w : Bytes} (h : Respace byteLexer s v w) (hs : s.depth = 0) :
    displayLoop s.quoted s.escaped v = displayLoop s.quoted s.escaped w := by
  have := h.congr (f := fun s v => decide (s.depth = 0) && displayLoop s.quoted s.escaped v) (fun s a v w ih => ?_)
    fun s a v hs ha => ?_
  · simpa [hs] using this
  · obtain ⟨quoted, escaped, depth⟩ := s
    cases depth with
    | succ depth => rfl
    | zero =>
      simp only [decide_true, Bool.true_and]
      rw [displayLoop, displayLoop]
      cases escaped with
      | true =>
        have ih : displayLoop quoted false v = displayLoop quoted false w := by simpa [byteLexer, Lex.next] using ih
        simp only [if_true, ih]
      | false =>
        simp only [Bool.false_eq_true, if_false]
        cases quoted with
        | true =>
          by_cases h1 : a = BACKSLASH
          · simpa [byteLexer, Lex.next, h1] using ih
          by_cases h2 : a = DQUOTE
          · simpa [byteLexer, Lex.next, h2, DQUOTE, BACKSLASH] using ih
          · have ih : displayLoop true false v = displayLoop true false w := by simpa [byteLexer, Lex.next, h1, h2] using ih
            simp [h1, h2, ih]
        | false =>
          by_cases h1 : a = LPAREN
          · -- a parenthesis is refused whatever follows
            subst h1
            rfl
          by_cases h2 : a = DQUOTE
          · simpa [byteLexer, Lex.next, h2, DQUOTE, LPAREN] using ih
          · have ih : displayLoop false false v = displayLoop false false w := by simpa [byteLexer, Lex.next, h1, h2] using ih
            simp [h2, ih]
  · obtain ⟨quoted, escaped, depth⟩ := s
    obtain rfl : escaped = false := by simpa [byteLexer] using hs
    rcases wsp_cases ha with rfl | rfl <;> cases quoted <;>
      simp [displayLoop, SP, TAB, DQUOTE, BACKSLASH, isAsciiControl, isAsciiWhitespace]

/-- A display name ends outside quoted strings. -/
theorem displayLoop_ends : ∀ {v : Bytes} {quoted escaped : Bool}, displayLoop quoted escaped v = true →
    v.foldl Lex.next ⟨quoted, escaped, 0⟩ = .top
  | [], quoted, escaped, h => by
    simp only [displayLoop, Bool.and_eq_true, Bool.not_eq_true'] at h
    rw [h.1, h.2]
    rfl
  | b :: v, quoted, true, h => by
    rw [displayLoop, if_pos rfl] at h
    split at h
    · cases h
    · exact displayLoop_ends (v := v) h
  | b :: v, true, false, h => by
    rw [displayLoop] at h
    simp only [Bool.false_eq_true, if_false, if_true] at h
    by_cases h1 : b = BACKSLASH
    · rw [if_pos h1] at h
      simpa [Lex.next, h1] using displayLoop_ends h
    by_cases h2 : b = DQUOTE
    · rw [if_neg h1, if_pos h2] at h
      simpa [Lex.next, h2, DQUOTE, BACKSLASH] using displayLoop_ends h
    rw [if_neg h1, if_neg h2] at h
    split at h
    · cases h
    · simpa [Lex.next, h1, h2] using displayLoop_ends h
  | b :: v, false, false, h => by
    rw [displayLoop] at h
    simp only [Bool.false_eq_true, if_false] at h
    by_cases h1 : b = DQUOTE
    · rw [if_pos h1] at h
      simpa [Lex.next, h1, DQUOTE, LPAREN] using displayLoop_ends h
    rw [if_neg h1] at h
    split at h
    · cases h
    · rename_i hpass
      have h2 : b ≠ LPAREN := by
        rintro rfl
        exact hpass rfl
      simpa [Lex.next, h1, h2] using displayLoop_ends h

/-! ## Addresses -/

/-- What is left of a quoted string that has been read up to a state, and of nothing after it. -/
def QuotedRest (s : Lex) (v : Bytes) : Prop :=
  match s with
  | ⟨true, false, 0⟩ => QText v
  | ⟨true, true, 0⟩ => ∃ b q, v = b :: q ∧ QText q
  | ⟨false, false, 0⟩ => v = []
  | _ => False

theorem quotedRest_cons {escaped : Bool} {a : UInt8} {v : Bytes} :
    QuotedRest ⟨true, escaped, 0⟩ (a :: v) ↔ QuotedRest (Lex.next ⟨true, escaped, 0⟩ a) v := by
  cases escaped with
  | true =>
    constructor
    · rintro ⟨b, q, hv, hq⟩
      obtain ⟨rfl, rfl⟩ := List.cons.inj hv
      exact hq
    · intro hq
      exact ⟨a, v, rfl, hq⟩
  | false =>
    by_cases h1 : a = BACKSLASH
    · subst h1
      constructor
      · intro h
        cases h with
        | pair b hq => exact ⟨b, _, rfl, hq⟩
        | other _ hne => exact absurd rfl hne
      · rintro ⟨b, q, rfl, hq⟩
        exact .pair b hq
    by_cases h2 : a = DQUOTE
    · subst h2
      constructor
      · intro h
        cases h with
        | close => rfl
        | other hne => exact absurd rfl hne
      · intro hv
        have hv : v = [] := hv
        rw [hv]
        exact .close
    · have hnext : Lex.next ⟨true, false, 0⟩ a = ⟨true, false, 0⟩ := by simp [Lex.next, h1, h2]
      rw [hnext]
      constructor
      · intro h
        cases h with
        | close => exact absurd rfl h2
        | pair => exact absurd rfl h1
        | other _ _ hq => exact hq
      · intro hq
        exact .other h2 h1 hq

/-- Only within the string may something be left. -/
theorem QuotedRest.quoted {s : Lex} {a : UInt8} {v : Bytes} (h : QuotedRest s (a :: v)) : ∃ escaped, s = ⟨true, escaped, 0⟩ := by
  unfold QuotedRest at h
  split at h
  · exact ⟨_, rfl⟩
  · exact ⟨_, rfl⟩
  · cases h
  · exact h.elim

theorem quotedRest_blank {s : Lex} (hs : byteLexer.free s = true) {a : UInt8} (ha : isWsp a = true) {v : Bytes} {escaped : Bool}
    (hquoted : s = ⟨true, escaped, 0⟩) : QuotedRest s (a :: v) ↔ QuotedRest s v := by
  obtain ⟨-, -, hnext, -⟩ := blank_step hs ha
  subst hquoted
  rw [quotedRest_cons, hnext]

/-- **The blanks within a quoted string do not matter.** -/
theorem quotedRest_respace {s : Lex} {v w : Bytes} (h : Respace byteLexer s v w) (hq : QuotedRest s v) : QuotedRest s w := by
  induction h with
  | nil => exact hq
  | same _ ih =>
    obtain ⟨escaped, rfl⟩ := hq.quoted
    exact quotedRest_cons.2 (ih (quotedRest_cons.1 hq))
  | swap hs ha hb _ ih =>
    obtain ⟨escaped, hquoted⟩ := hq.quoted
    exact (quotedRest_blank hs hb hquoted).2 (ih ((quotedRest_blank hs ha hquoted).1 hq))
  | more hs ha _ _ ih =>
    obtain ⟨escaped, hquoted⟩ := hq.quoted
    exact ih ((quotedRest_blank hs ha hquoted).1 hq)
  | fewer hs ha _ _ ih =>
    have hrest := ih hq
    obtain ⟨escaped, hquoted⟩ := hrest.quoted
    exact (quotedRest_blank hs ha hquoted).2 hrest

theorem DotAtom.bytes {v : Bytes} (h : DotAtom v) : ∀ b ∈ v, atomByte b = true ∨ b = DOT := by
  obtain ⟨parts, -, hparts, rfl⟩ := h
  intro b hb
  rcases mem_intercalate hb with rfl | ⟨p, hp, hbp⟩
  · exact Or.inr rfl
  · exact Or.inl ((hparts p hp).2 b hbp)

theorem atom_byte_solid {b : UInt8} (h : atomByte b = true ∨ b = DOT) : isWsp b = false ∧ b ≠ LPAREN ∧ b ≠ DQUOTE := by
  revert h
  exact forall_uint8 (P := fun b => atomByte b = true ∨ b = DOT → isWsp b = false ∧ b ≠ LPAREN ∧ b ≠ DQUOTE) (by decide +kernel) b

theorem LocalPart.respace {v w : Bytes} (h : LocalPart v) (hr : Respace byteLexer .top v w) : LocalPart w := by
  cases h with
  | dotAtom hd =>
    rw [hr.eq_of_solid fun b hb => (atom_byte_solid (hd.bytes b hb)).1]
    exact .dotAtom hd
  | quoted hq =>
    obtain ⟨w', rfl, hrest⟩ := hr.cons_solid (Or.inl rfl)
    exact .quoted (quotedRest_respace (s := ⟨true, false, 0⟩) hrest hq)

theorem QText.foldl {q : Bytes} (h : QText q) : q.foldl Lex.next ⟨true, false, 0⟩ = .top := by
  induction h with
  | close => rfl
  | pair b _ ih => exact ih
  | @other b q h1 h2 _ ih => simpa [Lex.next, h1, h2] using ih

theorem LocalPart.foldl {v : Bytes} (h : LocalPart v) : v.foldl Lex.next .top = .top := by
  cases h with
  | dotAtom hd => exact foldl_top fun b hb => (atom_byte_solid (hd.bytes b hb)).2
  | quoted hq => exact hq.foldl

theorem foldl_white {w : List Char} (h : ∀ c ∈ w, isWhitespace c = true) : w.foldl charLexer.next .top = .top := by
  induction w with
  | nil => rfl
  | cons c w ih =>
    rw [List.foldl_cons, white_next (h c (by simp))]
    exact ih fun x hx => h x (by simp [hx])

theorem foldl_trim {t : List Char} (h : (trim t).foldl charLexer.next .top = .top) : t.foldl charLexer.next .top = .top := by
  obtain ⟨w, w', hdec, hw, hw'⟩ := trim_decomp t
  rw [hdec, List.foldl_append, List.foldl_append, foldl_white hw, h, foldl_white hw']

theorem AddressText.respace {d : Bytes} {t t' : List Char} (h : AddressText d t) (hr : Respace charLexer .top t t') :
    AddressText d t' := by
  obtain ⟨l, r, rfl, hlocal, hdomain⟩ := h
  obtain ⟨l', r', rfl, hl, hrest⟩ := hr.split (c := '@') rfl
  have hstate : l.foldl charLexer.next .top = .top := foldl_trim (by rw [foldl_chars]; exact hlocal.foldl)
  rw [hstate] at hrest
  have hsolid : ∀ c ∈ Rust.trim r, charLexer.blank c = false := by
    intro c hc
    rw [Bool.eq_false_iff]
    intro hblank
    obtain ⟨b, hb, hbe⟩ := char_of_blank hblank
    have hbyte := hdomain.chars b (List.mem_flatMap.2 ⟨c, hc, by rw [hbe]; simp⟩)
    rcases wsp_cases hb with rfl | rfl <;> revert hbyte <;> decide
  refine ⟨l', r', rfl, hlocal.respace (respace_bytes (trim_respace hl)), ?_⟩
  rwa [(trim_respace hrest).eq_of_solid hsolid]

/-- **The blanks of a mailbox do not matter.** -/
theorem MailboxText.respace {d : Bytes} {t t' : List Char} (h : MailboxText d t) (hr : Respace charLexer .top t t') :
    MailboxText d t' := by
  cases h with
  | bare ha => exact .bare (ha.respace hr)
  | @angle l m r hname ha hrest =>
    obtain ⟨l', z, rfl, hl, hz⟩ := hr.split (c := '<') rfl
    have hstate : l.foldl charLexer.next .top = .top := by rw [foldl_chars]; exact displayLoop_ends hname
    rw [hstate] at hz
    obtain ⟨m', r', rfl, hm, hr⟩ := Respace.split (c := '>') rfl hz
    refine .angle ?_ (ha.respace (trim_respace hm)) (trim_nil_respace hr hrest)
    rw [displayName, ← displayLoop_respace (respace_bytes hl) rfl]
    exact hname

/-! ## Eligibility -/

/-- **A From field folded anew names the same domain.** -/
theorem fromDomain_refold {v w : Bytes} (h : Refold fromNext fromFree [CRLF] (.top, false) v w) : fromDomain v = fromDomain w := by
  have hone : ∀ {v w d : Bytes}, Refold fromNext fromFree [CRLF] (.top, false) v w → fromDomain v = .ok (some d) →
      fromDomain w = .ok (some d) := by
    intro v w d h hv
    obtain ⟨hun, hrun, t, ht, hmailbox⟩ := fromDomain_iff.1 hv
    obtain ⟨hsame, hfolds⟩ := unfold_refold _ (Nat.lt_succ_self _) h
    have hbytes := hfolds hun
    have hkept := uncomment_respace hbytes
    rw [ht] at hkept
    obtain ⟨t', ht', hchars⟩ := respace_chars _ (Nat.lt_succ_self _) hkept
    exact fromDomain_iff.2 ⟨hsame ▸ hun, lexRun_respace hbytes ▸ hrun, t', ht', hmailbox.respace (trim_respace hchars)⟩
  obtain ⟨o, ho, -⟩ := fromDomain_spec v
  obtain ⟨o', ho', -⟩ := fromDomain_spec w
  cases o with
  | some d => rw [ho, hone h ho]
  | none =>
    cases o' with
    | none => rw [ho, ho']
    | some d =>
      have := hone h.symm ho'
      rw [ho] at this
      cases this

/-- **Two lists that differ in their folds are signed alike**, if the folds of From fields are CRLFs. -/
theorem refolded_signed_alike {Key : Type} {headers headers' : List Header}
    (h : List.Forall₂ (Header.Refolded [CRLF]) headers headers') (env : Env Key) (config : RuntimeConfig Key) (bodyHash : Digest) :
    sign env config headers bodyHash = sign env config headers' bodyHash := by
  refine sign_congr env config bodyHash ?_ fun name _ => canonicalOf_refolded crlf_lwsp h name
  induction h with
  | nil => rfl
  | @cons a b hs hs' hr _ ih =>
    rw [List.filter_cons, List.filter_cons, ← Header.is_name hr.1]
    split
    · rename_i hfrom
      have hvalue := hr.2
      rw [if_pos hfrom] at hvalue
      rw [List.map_cons, List.map_cons, fromDomain_refold hvalue, ih]
    · exact ih

/-! ## A From field in two lines -/

theorem Refold.after {σ : Type} {next : σ → UInt8 → σ} {free : σ → Bool} {ends : List Bytes} {v w : Bytes} :
    ∀ {x : Bytes} {s : σ}, Refold next free ends (x.foldl next s) v w → Refold next free ends s (x ++ v) (x ++ w)
  | [], _, h => h
  | _ :: x, _, h => .same (Refold.after (x := x) h)

theorem Refold.refl {σ : Type} {next : σ → UInt8 → σ} {free : σ → Bool} {ends : List Bytes} : ∀ (s : σ) (v : Bytes),
    Refold next free ends s v v
  | _, [] => .nil
  | _, _ :: v => .same (Refold.refl _ v)

/-- A From field with a gap after the name. -/
theorem exampleGapped_name : ascii "From" ≠ [] ∧ (ascii "From").length ≤ 998 ∧ (ascii "From").all isNameByte = true := by
  decide

def exampleGapped (gap : Bytes) (h : NUL ∉ ascii "Alice" ++ (gap ++ ascii "<alice@example.com>")) : Header :=
  ⟨ascii "From", ascii "Alice" ++ (gap ++ ascii "<alice@example.com>"), exampleGapped_name, h⟩

abbrev examplePlain : Header := exampleGapped [SP] (by decide)
abbrev exampleCrlf : Header := exampleGapped [CR, LF, SP] (by decide)
abbrev exampleLf : Header := exampleGapped [LF, SP] (by decide)

theorem exampleGapped_refolded {ends : List Bytes} {e : Bytes} (hends : e ∈ ends)
    (h : NUL ∉ ascii "Alice" ++ ((e ++ [SP]) ++ ascii "<alice@example.com>")) :
    Header.Refolded ends examplePlain (exampleGapped (e ++ [SP]) h) := by
  refine ⟨rfl, ?_⟩
  rw [if_pos (by decide)]
  have hspace : Blank [SP] := by simp [Blank, isWsp]
  have hstate : (ascii "Alice").foldl fromNext (.top, false) = (.top, false) := by decide
  apply Refold.after
  rw [hstate]
  exact .gap rfl (.blanks (by simp) hspace) (.fold hends (by simp) hspace) (Refold.refl _ _)

theorem refolded_signed_alike_crlf : sign exampleEnv exampleConfig [examplePlain] emptyDigest =
    sign exampleEnv exampleConfig [exampleCrlf] emptyDigest :=
  refolded_signed_alike (.cons (exampleGapped_refolded (e := CRLF) (by simp) (by decide)) .nil) exampleEnv exampleConfig emptyDigest

/-- **A bare LF in a From field is refused**: two lists that differ by such a fold, one of which is
signed. -/
theorem bare_fold_refused : ∃ headers headers' : List Header, List.Forall₂ (Header.Refolded [CRLF, [LF]]) headers headers' ∧
    (∃ signed, sign exampleEnv exampleConfig headers emptyDigest = .ok signed) ∧
    ∃ e, sign exampleEnv exampleConfig headers' emptyDigest = .err e := by
  refine ⟨[examplePlain], [exampleLf], .cons (exampleGapped_refolded (e := [LF]) (by simp) (by decide)) .nil, ?_, ?_⟩
  · refine sign_works exampleSsl_documented exampleEnv_works ?_ emptyDigest
    exact ⟨examplePlain, ascii "example.com", by decide, by decide +kernel, by decide⟩
  · refine sign_not_eligible ?_ exampleEnv emptyDigest
    rintro ⟨header, domain, hfilter, hdomain, -⟩
    have hheader : [exampleLf].filter (·.is fromName) = [exampleLf] := by decide
    obtain rfl : exampleLf = header := by simpa using hheader.symm.trans hfilter
    have hread : fromDomain exampleLf.value = .ok none := by decide +kernel
    rw [hread] at hdomain
    cases hdomain

end DkimLite
