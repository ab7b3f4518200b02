import DkimLite.MailboxLex
import DkimLite.Sign

/-!
# The mailboxes of RFC 5322

`Rfc.Mailbox` is the `mailbox` rule without obsolete syntax, production by production: folding
white space, nested comments, quoted-pairs, and a phrase that may also hold dots. Its domain is a
dot-separated list of letter-digit-hyphen labels. The flag of `Rfc.Mailbox` says whether a quoted
string of the phrase escapes a tab.

`display_name` refuses an escaped control character, the tab too (`src/dkim.rs:412-414`), where
`local_part` and an unescaped tab of a phrase make an exception for it. `mailbox_read_iff`: this
is all that keeps a mailbox of the grammar from being read.
-/

namespace DkimLite
open Rust Text

/-! ## The grammar -/

namespace Rfc

def isVchar (b : UInt8) : Bool := 33 ≤ b && b ≤ 126

/-- `atext`: visible characters but the `specials`. -/
def isAtext (b : UInt8) : Bool :=
  isVchar b && !([LPAREN, RPAREN, LANGLE, RANGLE, 91, 93, 58, SEMICOLON, AT, BACKSLASH, COMMA, DOT, DQUOTE].contains b)

def isCtext (b : UInt8) : Bool := (33 ≤ b && b ≤ 39) || (42 ≤ b && b ≤ 91) || (93 ≤ b && b ≤ 126)

def isQtext (b : UInt8) : Bool := b == 33 || (35 ≤ b && b ≤ 91) || (93 ≤ b && b ≤ 126)

/-- What a backslash may stand before. -/
def isPaired (b : UInt8) : Bool := isVchar b || isWsp b

/-- `[X]` -/
def Opt (X : Bytes → Prop) (v : Bytes) : Prop := v = [] ∨ X v

/-- `FWS = ([*WSP CRLF] 1*WSP)` -/
inductive Fws : Bytes → Prop
  | wsp {w : Bytes} : w ≠ [] → (∀ b ∈ w, isWsp b = true) → Fws w
  | fold {p w : Bytes} : (∀ b ∈ p, isWsp b = true) → w ≠ [] → (∀ b ∈ w, isWsp b = true) → Fws (p ++ (CRLF ++ w))

/-- `*([FWS] ccontent) [FWS]`, between the parentheses of a comment. -/
inductive CommentBody : Bytes → Prop
  | done {w : Bytes} : Opt Fws w → CommentBody w
  | text {w r : Bytes} {b : UInt8} : Opt Fws w → isCtext b = true → CommentBody r → CommentBody (w ++ b :: r)
  | pair {w r : Bytes} {b : UInt8} : Opt Fws w → isPaired b = true → CommentBody r →
      CommentBody (w ++ BACKSLASH :: b :: r)
  | comment {w c r : Bytes} : Opt Fws w → CommentBody c → CommentBody r →
      CommentBody (w ++ LPAREN :: (c ++ RPAREN :: r))

/-- `CFWS = (1*([FWS] comment) [FWS]) / FWS` -/
inductive Cfws : Bytes → Prop
  | fws {w : Bytes} : Fws w → Cfws w
  | last {w c : Bytes} : Opt Fws w → CommentBody c → Cfws (w ++ LPAREN :: (c ++ [RPAREN]))
  | comment {w c r : Bytes} : Opt Fws w → CommentBody c → Cfws r → Cfws (w ++ LPAREN :: (c ++ RPAREN :: r))

/-- `*([FWS] qcontent) [FWS]`, between the quotes; the flag says whether a tab is escaped. -/
inductive QuotedBody : Bool → Bytes → Prop
  | done {w : Bytes} : Opt Fws w → QuotedBody false w
  | text {w r : Bytes} {b : UInt8} {tab : Bool} : Opt Fws w → isQtext b = true → QuotedBody tab r →
      QuotedBody tab (w ++ b :: r)
  | pair {w r : Bytes} {b : UInt8} {tab : Bool} : Opt Fws w → isPaired b = true → QuotedBody tab r →
      QuotedBody (b == TAB || tab) (w ++ BACKSLASH :: b :: r)

/-- `quoted-string = [CFWS] DQUOTE *([FWS] qcontent) [FWS] DQUOTE [CFWS]` -/
inductive QuotedString (tab : Bool) : Bytes → Prop
  | mk {w q w' : Bytes} : Opt Cfws w → QuotedBody tab q → Opt Cfws w' → QuotedString tab (w ++ DQUOTE :: (q ++ DQUOTE :: w'))

/-- `atom = [CFWS] 1*atext [CFWS]` -/
inductive Atom : Bytes → Prop
  | mk {w a w' : Bytes} : Opt Cfws w → a ≠ [] → (∀ b ∈ a, isAtext b = true) → Opt Cfws w' → Atom (w ++ (a ++ w'))

/-- A phrase of atoms, dots and quoted strings, or none. -/
inductive Phrase : Bool → Bytes → Prop
  | nil : Phrase false []
  | atom {a r : Bytes} {tab : Bool} : Atom a → Phrase tab r → Phrase tab (a ++ r)
  | dot {w w' r : Bytes} {tab : Bool} : Opt Cfws w → Opt Cfws w' → Phrase tab r → Phrase tab (w ++ DOT :: (w' ++ r))
  | quoted {q r : Bytes} {tab tab' : Bool} : QuotedString tab q → Phrase tab' r → Phrase (tab || tab') (q ++ r)

/-- `local-part = dot-atom / quoted-string` -/
inductive LocalPart : Bytes → Prop
  | dotAtom {w w' : Bytes} {atoms : List Bytes} : Opt Cfws w → atoms ≠ [] → (∀ a ∈ atoms, a ≠ [] ∧ ∀ b ∈ a, isAtext b = true) →
      Opt Cfws w' → LocalPart (w ++ ([DOT].intercalate atoms ++ w'))
  | quoted {q : Bytes} {tab : Bool} : QuotedString tab q → LocalPart q

/-- A dot-separated list of letter-digit-hyphen labels. -/
def DomainName (dom : Bytes) : Prop :=
  ∃ labels, labels ≠ [] ∧ (∀ l ∈ labels, l ≠ [] ∧ ∀ b ∈ l, (isAsciiAlphanumeric b || b == 45) = true) ∧
    dom = [DOT].intercalate labels

/-- `addr-spec = local-part "@" [CFWS] domain [CFWS]` -/
inductive AddrSpec (dom : Bytes) : Bytes → Prop
  | mk {l w w' : Bytes} : LocalPart l → Opt Cfws w → DomainName dom → Opt Cfws w' → AddrSpec dom (l ++ AT :: (w ++ (dom ++ w')))

/-- `mailbox = [display-name] [CFWS] "<" addr-spec ">" [CFWS] / addr-spec` -/
inductive Mailbox (dom : Bytes) : Bool → Bytes → Prop
  | addrSpec {a : Bytes} : AddrSpec dom a → Mailbox dom false a
  | nameAddr {p w a w' : Bytes} {tab : Bool} : Phrase tab p → Opt Cfws w → AddrSpec dom a → Opt Cfws w' →
      Mailbox dom tab (p ++ (w ++ LANGLE :: (a ++ RANGLE :: w')))

end Rfc

/-! ## Reading a piece of text -/

/-- A piece that the comment loop reads from `s` to `t` and keeps as `o`, once unfolded. -/
def Yields (s t : Lex) (v o : Bytes) : Prop := ∃ u, Unfolds v u ∧ lexRun s u = some t ∧ uncomment s u = o

theorem lexRun_foldl : ∀ {v : Bytes} {s t : Lex}, lexRun s v = some t → v.foldl Lex.next s = t
  | [], _, _, h => Option.some.inj h
  | b :: v, s, t, h => by
    rw [lexRun] at h
    split at h
    · cases h
    · exact lexRun_foldl (v := v) h

theorem Yields.append {s t t' : Lex} {v v' o o' : Bytes} (h : Yields s t v o) (h' : Yields t t' v' o') :
    Yields s t' (v ++ v') (o ++ o') := by
  obtain ⟨u, hu, hrun, rfl⟩ := h
  obtain ⟨u', hu', hrun', rfl⟩ := h'
  refine ⟨u ++ u', hu.append hu', ?_, ?_⟩
  · rw [lexRun_append, hrun]
    exact hrun'
  · rw [uncomment_append, lexRun_foldl hrun]

theorem Yields.nil (s : Lex) : Yields s s [] [] := ⟨[], .nil, rfl, rfl⟩

/-- A byte that is neither a line break nor a control character. -/
theorem Yields.byte {s : Lex} {b : UInt8} (hb : (isAsciiControl b = false ∧ b.toNat < 128) ∨ b = TAB) (hstray : s.stray b = false) :
    Yields s (s.next b) [b] (s.emit b) := by
  have hcr : b ≠ CR := by
    rintro rfl
    rcases hb with ⟨hb, -⟩ | hb
    · revert hb; decide
    · revert hb; decide
  have hok : (!isAsciiControl b || b == TAB) = true := by
    rcases hb with ⟨hb, -⟩ | rfl
    · rw [hb]; rfl
    · rfl
  have hlow : b.toNat < 128 := by
    rcases hb with ⟨-, hb⟩ | rfl
    · exact hb
    · decide
  refine ⟨[b], ⟨fun r => ⟨?_, ?_⟩, by simpa using hlow⟩, ?_, ?_⟩
  · rw [List.singleton_append, unfoldable_other hcr, hok, Bool.true_and]
  · rw [List.singleton_append, removeFolds_other hcr]
    rfl
  · rw [lexRun, hstray]
    rfl
  · rw [uncomment, uncomment, List.append_nil]

/-- What the loop keeps of an unfolded piece is ASCII. -/
theorem Yields.low {s t : Lex} {v o : Bytes} (h : Yields s t v o) : ∀ b ∈ o, b.toNat < 128 := by
  obtain ⟨u, hu, -, rfl⟩ := h
  intro b hb
  rcases mem_uncomment hb with hb | rfl
  · exact hu.low b hb
  · decide

theorem utf8_chars {o : Bytes} (h : ∀ b ∈ o, b.toNat < 128) : utf8 (o.map asciiChar) = o :=
  (fromUtf8_eq_some.1 (fromUtf8_ascii h)).symm

/-! ## White space and comments -/

theorem Rfc.Fws.unfolds {v : Bytes} (h : Rfc.Fws v) : ∃ w, Unfolds v w ∧ Blank w := by
  cases h with
  | wsp _ hw => exact ⟨v, blank_unfolds hw, hw⟩
  | @fold p w hp hne hw =>
    exact ⟨p ++ w, (blank_unfolds hp).append (blank_unfolds_fold hw hne), Blank.append hp hw⟩

theorem Rfc.Opt.fws {v : Bytes} (h : Rfc.Opt Rfc.Fws v) {s : Lex} (hs : s.escaped = false) :
    ∃ w, Blank w ∧ Yields s s v (if 0 < s.depth then [] else w) := by
  rcases h with rfl | h
  · refine ⟨[], blank_nil, ?_⟩
    rw [ite_self]
    exact .nil s
  · obtain ⟨w, hw, hblank⟩ := h.unfolds
    exact ⟨w, hblank, w, hw, (blank_lex hblank hs).1, (blank_lex hblank hs).2⟩

/-- White space inside a comment is dropped. -/
theorem Rfc.Opt.fws_comment {v : Bytes} (h : Rfc.Opt Rfc.Fws v) (d : Nat) :
    Yields ⟨false, false, d + 1⟩ ⟨false, false, d + 1⟩ v [] := by
  obtain ⟨w, -, hw⟩ := h.fws (s := ⟨false, false, d + 1⟩) rfl
  rwa [if_pos (by simp)] at hw

theorem ctext_byte {b : UInt8} (h : Rfc.isCtext b = true) :
    (isAsciiControl b = false ∧ b.toNat < 128) ∧ b ≠ LPAREN ∧ b ≠ RPAREN ∧ b ≠ BACKSLASH := by
  revert h
  exact forall_uint8 (P := fun b => Rfc.isCtext b = true →
    (isAsciiControl b = false ∧ b.toNat < 128) ∧ b ≠ LPAREN ∧ b ≠ RPAREN ∧ b ≠ BACKSLASH) (by decide +kernel) b

theorem paired_byte {b : UInt8} (h : Rfc.isPaired b = true) : (isAsciiControl b = false ∧ b.toNat < 128) ∨ b = TAB := by
  revert h
  exact forall_uint8 (P := fun b => Rfc.isPaired b = true → (isAsciiControl b = false ∧ b.toNat < 128) ∨ b = TAB)
    (by decide +kernel) b

/-- **A comment body is dropped**, with the comments in it. -/
theorem Rfc.CommentBody.yields {c : Bytes} (h : Rfc.CommentBody c) : ∀ d : Nat,
    Yields ⟨false, false, d + 1⟩ ⟨false, false, d + 1⟩ c [] := by
  induction h with
  | done hw => exact hw.fws_comment
  | @text w r b hw hb _ ih =>
    intro d
    obtain ⟨hplain, h1, h2, h3⟩ := ctext_byte hb
    have hbyte := Yields.byte (s := ⟨false, false, d + 1⟩) (Or.inl hplain) (by simp [Lex.stray])
    have hnext : Lex.next ⟨false, false, d + 1⟩ b = ⟨false, false, d + 1⟩ := by simp [Lex.next, h1, h2, h3]
    rw [hnext] at hbyte
    exact (hw.fws_comment d).append (hbyte.append (ih d))
  | @pair w r b hw hb _ ih =>
    intro d
    have hslash := Yields.byte (s := ⟨false, false, d + 1⟩) (b := BACKSLASH) (Or.inl (by decide)) (by simp [Lex.stray])
    have hbyte := Yields.byte (s := ⟨false, true, d + 1⟩) (paired_byte hb) (by simp [Lex.stray])
    exact (hw.fws_comment d).append (hslash.append (hbyte.append (ih d)))
  | @comment w c r hw _ _ ihc ihr =>
    intro d
    have hopen := Yields.byte (s := ⟨false, false, d + 1⟩) (b := LPAREN) (Or.inl (by decide)) (by simp [Lex.stray])
    have hclose := Yields.byte (s := ⟨false, false, d + 1 + 1⟩) (b := RPAREN) (Or.inl (by decide)) (by simp [Lex.stray])
    exact (hw.fws_comment d).append (hopen.append ((ihc (d + 1)).append (hclose.append (ihr d))))

theorem Rfc.CommentBody.yields_top {c : Bytes} (h : Rfc.CommentBody c) : Yields .top .top (LPAREN :: (c ++ [RPAREN])) [SP] := by
  have hopen := Yields.byte (s := .top) (b := LPAREN) (Or.inl (by decide)) (by decide)
  have hclose := Yields.byte (s := ⟨false, false, 1⟩) (b := RPAREN) (Or.inl (by decide)) (by decide)
  exact hopen.append ((h.yields 0).append hclose)

/-- **White space and comments are kept as spaces and tabs.** -/
theorem Rfc.Cfws.yields {v : Bytes} (h : Rfc.Cfws v) : ∃ w, Blank w ∧ Yields .top .top v w := by
  induction h with
  | fws hw => exact Rfc.Opt.fws (Or.inr hw) (s := .top) rfl
  | last hw hc =>
    obtain ⟨w, hblank, hw⟩ := hw.fws (s := .top) rfl
    exact ⟨w ++ [SP], hblank.append (by simp [Blank, isWsp]), hw.append hc.yields_top⟩
  | comment hw hc _ ih =>
    obtain ⟨w, hblank, hw⟩ := hw.fws (s := .top) rfl
    obtain ⟨w', hblank', hr⟩ := ih
    refine ⟨w ++ ([SP] ++ w'), hblank.append (Blank.append (by simp [Blank, isWsp]) hblank'), ?_⟩
    have := hw.append (hc.yields_top.append hr)
    simpa using this

theorem Rfc.Opt.cfws {v : Bytes} (h : Rfc.Opt Rfc.Cfws v) : ∃ w, Blank w ∧ Yields .top .top v w := by
  rcases h with rfl | h
  · exact ⟨[], blank_nil, .nil _⟩
  · exact h.yields

/-! ## Quoted strings -/

theorem qtext_byte {b : UInt8} (h : Rfc.isQtext b = true) :
    (isAsciiControl b = false ∧ b.toNat < 128) ∧ b ≠ DQUOTE ∧ b ≠ BACKSLASH := by
  revert h
  exact forall_uint8 (P := fun b => Rfc.isQtext b = true →
    (isAsciiControl b = false ∧ b.toNat < 128) ∧ b ≠ DQUOTE ∧ b ≠ BACKSLASH) (by decide +kernel) b

/-- A closed quoted string for the parser, and for `display_name` unless a tab is escaped. -/
structure Closes (tab : Bool) (q : Bytes) : Prop where
  closed : QText q
  display : ∀ r, displayLoop true false (q ++ r) = (!tab && displayLoop false false r)

theorem Closes.wsp {tab : Bool} {q : Bytes} (h : Closes tab q) {b : UInt8} (hb : isWsp b = true) : Closes tab (b :: q) := by
  have hplain : b ≠ DQUOTE ∧ b ≠ BACKSLASH := by rcases wsp_cases hb with rfl | rfl <;> decide
  have hok : (isAsciiControl b && b != TAB) = false := by rcases wsp_cases hb with rfl | rfl <;> decide
  refine ⟨.other hplain.1 hplain.2 h.closed, fun r => ?_⟩
  rw [List.cons_append, displayLoop]
  simp [hplain, hok, h.display r]

theorem Closes.blank {tab : Bool} {q w : Bytes} (h : Closes tab q) (hw : Blank w) : Closes tab (w ++ q) := by
  induction w with
  | nil => exact h
  | cons b w ih => exact (ih fun x hx => hw x (by simp [hx])).wsp (hw b (by simp))

/-- **A quoted string is kept**, without its folds. -/
theorem Rfc.QuotedBody.yields {tab : Bool} {q : Bytes} (h : Rfc.QuotedBody tab q) :
    ∃ o, Yields ⟨true, false, 0⟩ ⟨true, false, 0⟩ q o ∧ Closes tab (o ++ [DQUOTE]) := by
  induction h with
  | done hw =>
    obtain ⟨w, hblank, hw⟩ := hw.fws (s := ⟨true, false, 0⟩) rfl
    have hend : Closes false [DQUOTE] := ⟨.close, fun r => by simp [displayLoop, DQUOTE, BACKSLASH]⟩
    exact ⟨w, hw, hend.blank hblank⟩
  | @text w r b tab hw hb _ ih =>
    obtain ⟨w, hblank, hw⟩ := hw.fws (s := ⟨true, false, 0⟩) rfl
    obtain ⟨o, ho, hclose⟩ := ih
    obtain ⟨hplain, h1, h2⟩ := qtext_byte hb
    have hbyte := Yields.byte (s := ⟨true, false, 0⟩) (Or.inl hplain) (by simp [Lex.stray])
    have hnext : Lex.next ⟨true, false, 0⟩ b = ⟨true, false, 0⟩ := by simp [Lex.next, h1, h2]
    rw [hnext] at hbyte
    refine ⟨w ++ b :: o, hw.append (hbyte.append ho), ?_⟩
    rw [List.append_assoc]
    refine Closes.blank ⟨.other h1 h2 hclose.closed, fun r => ?_⟩ hblank
    rw [List.cons_append, List.cons_append, displayLoop]
    simpa [h1, h2, hplain.1] using hclose.display r
  | @pair w r b tab hw hb _ ih =>
    obtain ⟨w, hblank, hw⟩ := hw.fws (s := ⟨true, false, 0⟩) rfl
    obtain ⟨o, ho, hclose⟩ := ih
    have hslash := Yields.byte (s := ⟨true, false, 0⟩) (b := BACKSLASH) (Or.inl (by decide)) (by simp [Lex.stray])
    have hbyte := Yields.byte (s := ⟨true, true, 0⟩) (paired_byte hb) (by simp [Lex.stray])
    refine ⟨w ++ BACKSLASH :: b :: o, hw.append (hslash.append (hbyte.append ho)), ?_⟩
    rw [List.append_assoc]
    refine Closes.blank ⟨.pair b hclose.closed, fun r => ?_⟩ hblank
    -- here `display_name` refuses an escaped tab
    have hstep : displayLoop true false (BACKSLASH :: b :: o ++ [DQUOTE] ++ r) =
        if isAsciiControl b then false else displayLoop true false (o ++ [DQUOTE] ++ r) := by
      simp [displayLoop]
    rcases paired_byte hb with ⟨hplain, -⟩ | rfl
    · have htab : (b == TAB) = false := by
        rw [beq_eq_false_iff_ne]
        rintro rfl
        revert hplain
        decide
      rw [List.cons_append, List.cons_append, ← List.cons_append, ← List.cons_append, hstep, hplain, htab, Bool.false_or]
      exact hclose.display r
    · exact hstep

theorem Rfc.QuotedString.yields {tab : Bool} {v : Bytes} (h : Rfc.QuotedString tab v) :
    ∃ w q w', Blank w ∧ Blank w' ∧ Yields .top .top v (w ++ DQUOTE :: (q ++ w')) ∧ Closes tab q := by
  obtain ⟨hw, hq, hw'⟩ := h
  obtain ⟨w, hblank, hw⟩ := hw.cfws
  obtain ⟨o, ho, hclose⟩ := hq.yields
  obtain ⟨w', hblank', hw'⟩ := hw'.cfws
  have hopen := Yields.byte (s := .top) (b := DQUOTE) (Or.inl (by decide)) (by decide)
  have hend := Yields.byte (s := ⟨true, false, 0⟩) (b := DQUOTE) (Or.inl (by decide)) (by decide)
  refine ⟨w, o ++ [DQUOTE], w', hblank, hblank', ?_, hclose⟩
  have : Yields .top .top _ (w ++ ([DQUOTE] ++ (o ++ ([DQUOTE] ++ w')))) := hw.append (hopen.append (ho.append (hend.append hw')))
  simpa using this

/-! ## Phrases -/

theorem atext_atom {b : UInt8} (h : Rfc.isAtext b = true) : atomByte b = true := by
  revert h
  exact forall_uint8 (P := fun b => Rfc.isAtext b = true → atomByte b = true) (by decide +kernel) b

theorem atom_byte_plain {b : UInt8} (h : atomByte b = true ∨ b = DOT) :
    (isAsciiControl b = false ∧ b.toNat < 128) ∧ b ≠ LPAREN ∧ b ≠ RPAREN ∧ b ≠ DQUOTE ∧ isWhitespace (asciiChar b) = false := by
  revert h
  exact forall_uint8 (P := fun b => atomByte b = true ∨ b = DOT → (isAsciiControl b = false ∧ b.toNat < 128) ∧
    b ≠ LPAREN ∧ b ≠ RPAREN ∧ b ≠ DQUOTE ∧ isWhitespace (asciiChar b) = false) (by decide +kernel) b

theorem yields_plain {v : Bytes} (h : ∀ b ∈ v, (isAsciiControl b = false ∧ b.toNat < 128) ∧ b ≠ LPAREN ∧ b ≠ RPAREN ∧ b ≠ DQUOTE) :
    Yields .top .top v v := by
  induction v with
  | nil => exact .nil _
  | cons b v ih =>
    obtain ⟨hplain, h1, h2, h3⟩ := h b (by simp)
    have hbyte := Yields.byte (s := .top) (Or.inl hplain) (by simp [Lex.stray, h2])
    have hnext : Lex.next .top b = .top := by simp [Lex.next, h1, h3]
    have hemit : Lex.emit .top b = [b] := by simp [Lex.emit, h1]
    rw [hnext, hemit] at hbyte
    exact hbyte.append (ih fun x hx => h x (by simp [hx]))

/-- A phrase for the scans, and for `display_name` unless a tab is escaped. -/
structure Displays (tab : Bool) (p : Bytes) : Prop where
  level : Level p
  display : ∀ r, displayLoop false false (p ++ r) = (!tab && displayLoop false false r)

theorem Displays.append {tab tab' : Bool} {p p' : Bytes} (h : Displays tab p) (h' : Displays tab' p') :
    Displays (tab || tab') (p ++ p') := by
  refine ⟨h.level.append h'.level, fun r => ?_⟩
  rw [List.append_assoc, h.display, h'.display, Bool.not_or, Bool.and_assoc]

theorem displays_plain {p : Bytes} (h : ∀ b ∈ p, atomByte b = true ∨ b = DOT ∨ isWsp b = true ∨ 128 ≤ b.toNat) :
    Displays false p := by
  refine ⟨Level.of_forall fun b hb => ?_, fun r => ?_⟩
  · rcases h b hb with h | rfl | h | h
    · exact level_of_atom h
    · rfl
    · exact level_of_wsp h
    · exact level_of_high h
  · rw [Bool.not_false, Bool.true_and]
    induction p with
    | nil => rfl
    | cons b p ih =>
      have hpass : b ≠ DQUOTE ∧ (!atomByte b && b != DOT && !isAsciiWhitespace b && isAscii b) = false := by
        rcases h b (by simp) with hb | rfl | hb | hb
        · exact ⟨(atom_byte_plain (Or.inl hb)).2.2.2.1, by simp [hb]⟩
        · decide
        · rcases wsp_cases hb with rfl | rfl <;> decide
        · have hhigh : isAscii b = false := by simpa [isAscii, UInt8.le_iff_toNat_le] using hb
          exact ⟨(isStructural_eq_false (level_of_high hb)).1, by rw [hhigh, Bool.and_false]⟩
      rw [List.cons_append, displayLoop, hpass.2]
      simpa [hpass.1] using ih fun x hx => h x (by simp [hx])

theorem blank_displays {w : Bytes} (h : Blank w) : Displays false w :=
  displays_plain fun b hb => Or.inr (Or.inr (Or.inl (h b hb)))

/-- **A phrase is a display name if and only if no tab is escaped in it.** -/
theorem Rfc.Phrase.yields {tab : Bool} {p : Bytes} (h : Rfc.Phrase tab p) : ∃ o, Yields .top .top p o ∧ Displays tab o := by
  induction h with
  | nil => exact ⟨[], .nil _, .nil, fun _ => rfl⟩
  | atom ha _ ih =>
    obtain ⟨hw, -, hbytes, hw'⟩ := ha
    obtain ⟨w, hblank, hw⟩ := hw.cfws
    obtain ⟨w', hblank', hw'⟩ := hw'.cfws
    obtain ⟨o, ho, hdisplay⟩ := ih
    have hatom := yields_plain fun b hb =>
      have h := atom_byte_plain (Or.inl (atext_atom (hbytes b hb)))
      ⟨h.1, h.2.1, h.2.2.1, h.2.2.2.1⟩
    have hplain := displays_plain fun b hb => Or.inl (atext_atom (hbytes b hb))
    refine ⟨_, (hw.append (hatom.append hw')).append ho, ?_⟩
    exact ((blank_displays hblank).append (hplain.append (blank_displays hblank'))).append hdisplay
  | dot hw hw' _ ih =>
    obtain ⟨w, hblank, hw⟩ := hw.cfws
    obtain ⟨w', hblank', hw'⟩ := hw'.cfws
    obtain ⟨o, ho, hdisplay⟩ := ih
    have hdot : Yields .top .top [DOT] [DOT] := yields_plain (by simp [DOT, isAsciiControl, LPAREN, RPAREN, DQUOTE])
    have hplain : Displays false [DOT] := displays_plain (by simp)
    refine ⟨_, hw.append (hdot.append (hw'.append ho)), ?_⟩
    exact (blank_displays hblank).append (hplain.append ((blank_displays hblank').append hdisplay))
  | @quoted q r tab tab' hq _ ih =>
    obtain ⟨w, q', w', hblank, hblank', hyields, hclose⟩ := hq.yields
    obtain ⟨o, ho, hdisplay⟩ := ih
    have hstring : Displays tab (DQUOTE :: q') := by
      refine ⟨?_, fun r => ?_⟩
      · have := Level.quoted hclose.closed .nil
        rwa [List.append_nil] at this
      · rw [List.cons_append, ← hclose.display r]
        simp [displayLoop]
    refine ⟨_, hyields.append ho, ?_⟩
    have := ((blank_displays hblank).append (hstring.append (blank_displays hblank'))).append hdisplay
    simpa using this

/-! ## Addresses -/

theorem blank_white {w : Bytes} (h : Blank w) : ∀ c ∈ w.map asciiChar, isWhitespace c = true := by
  intro c hc
  obtain ⟨b, hb, rfl⟩ := List.mem_map.1 hc
  rcases wsp_cases (h b hb) with rfl | rfl <;> decide

/-- White space around a text is trimmed. -/
theorem trim_pad {w x w' : List Char} (hw : ∀ c ∈ w, isWhitespace c = true) (hw' : ∀ c ∈ w', isWhitespace c = true) :
    trim (w ++ (x ++ w')) = trim x := by
  have hright : ∀ {w' : List Char}, (∀ c ∈ w', isWhitespace c = true) → (x ++ w').rdropWhile isWhitespace =
      x.rdropWhile isWhitespace := by
    intro w' h
    induction w' using List.reverseRecOn with
    | nil => rw [List.append_nil]
    | append_singleton w' c ih =>
      rw [← List.append_assoc, List.rdropWhile_concat_pos _ _ _ (h c (by simp)), ih fun x hx => h x (by simp [hx])]
  rw [trim, List.dropWhile_append_of_pos hw, ← dropWhile_rdropWhile, hright hw', dropWhile_rdropWhile, trim]

/-- A text without white space is its own trim. -/
theorem trim_solid {x : List Char} (h : ∀ c ∈ x, isWhitespace c = false) : trim x = x := by
  have hdrop : x.dropWhile isWhitespace = x := by
    cases x with
    | nil => rfl
    | cons c x => exact List.dropWhile_cons_of_neg (by simp [h c])
  rw [trim, hdrop]
  induction x using List.reverseRecOn with
  | nil => rfl
  | append_singleton x c _ => exact List.rdropWhile_concat_neg _ _ _ (by simp [h c])

theorem trim_quoted (q : List Char) : trim ('"' :: (q ++ ['"'])) = '"' :: (q ++ ['"']) := by
  have := trim_char (c := '"') (by decide) [] (q ++ ['"'])
  rw [List.rdropWhile_concat_neg _ _ _ (by decide)] at this
  exact this

theorem atoms_bytes {atoms : List Bytes} (h : ∀ a ∈ atoms, a ≠ [] ∧ ∀ b ∈ a, Rfc.isAtext b = true) :
    ∀ b ∈ [DOT].intercalate atoms, atomByte b = true ∨ b = DOT := by
  intro b hb
  rcases mem_intercalate hb with rfl | ⟨a, ha, hba⟩
  · exact Or.inr rfl
  · exact Or.inl (atext_atom ((h a ha).2 b hba))

theorem QText.ends {q : Bytes} (h : QText q) : ∃ q', q = q' ++ [DQUOTE] := by
  induction h with
  | close => exact ⟨[], rfl⟩
  | pair b _ ih =>
    obtain ⟨q', rfl⟩ := ih
    exact ⟨BACKSLASH :: b :: q', rfl⟩
  | @other b _ _ _ _ ih =>
    obtain ⟨q', rfl⟩ := ih
    exact ⟨b :: q', rfl⟩

/-- **A local part is one for the parser**, between white space. -/
theorem Rfc.LocalPart.yields {v : Bytes} (h : Rfc.LocalPart v) :
    ∃ o, Yields .top .top v o ∧ DkimLite.LocalPart (utf8 (trim (o.map asciiChar))) := by
  cases h with
  | @dotAtom w w' atoms hw hne hatoms hw' =>
    obtain ⟨w, hblank, hw⟩ := hw.cfws
    obtain ⟨w', hblank', hw'⟩ := hw'.cfws
    have hbytes := atoms_bytes hatoms
    have hatom := yields_plain fun b hb =>
      have h := atom_byte_plain (hbytes b hb)
      ⟨h.1, h.2.1, h.2.2.1, h.2.2.2.1⟩
    refine ⟨_, hw.append (hatom.append hw'), ?_⟩
    rw [List.map_append, List.map_append, trim_pad (blank_white hblank) (blank_white hblank'), trim_solid, utf8_chars hatom.low]
    · exact .dotAtom ⟨atoms, hne, fun a ha => ⟨(hatoms a ha).1, fun b hb => atext_atom ((hatoms a ha).2 b hb)⟩, rfl⟩
    · intro c hc
      obtain ⟨b, hb, rfl⟩ := List.mem_map.1 hc
      exact (atom_byte_plain (hbytes b hb)).2.2.2.2
  | quoted hq =>
    obtain ⟨w, q, w', hblank, hblank', hyields, hclose⟩ := hq.yields
    refine ⟨_, hyields, ?_⟩
    have hlow : ∀ b ∈ DQUOTE :: q, b.toNat < 128 := fun b hb => hyields.low b (by
      rcases List.mem_cons.1 hb with rfl | hb <;> simp [*])
    obtain ⟨q', rfl⟩ := hclose.closed.ends
    have hchars : (w ++ DQUOTE :: (q' ++ [DQUOTE] ++ w')).map asciiChar =
        w.map asciiChar ++ (('"' :: (q'.map asciiChar ++ ['"'])) ++ w'.map asciiChar) := by
      simp [show asciiChar DQUOTE = '"' from rfl]
    have hquoted : '"' :: (q'.map asciiChar ++ ['"']) = (DQUOTE :: (q' ++ [DQUOTE])).map asciiChar := by
      simp [show asciiChar DQUOTE = '"' from rfl]
    rw [hchars, trim_pad (blank_white hblank) (blank_white hblank'), trim_quoted, hquoted, utf8_chars hlow]
    exact .quoted hclose.closed

theorem label_byte {b : UInt8} (h : (isAsciiAlphanumeric b || b == 45) = true) :
    (isAsciiControl b = false ∧ b.toNat < 128) ∧ b ≠ LPAREN ∧ b ≠ RPAREN ∧ b ≠ DQUOTE ∧ b ≠ DOT ∧
      isDomainByte b = true ∧ isWhitespace (asciiChar b) = false := by
  revert h
  exact forall_uint8 (P := fun b => (isAsciiAlphanumeric b || b == 45) = true → (isAsciiControl b = false ∧ b.toNat < 128) ∧
    b ≠ LPAREN ∧ b ≠ RPAREN ∧ b ≠ DQUOTE ∧ b ≠ DOT ∧ isDomainByte b = true ∧ isWhitespace (asciiChar b) = false)
    (by decide +kernel) b

/-- A domain name ends in no dot, so none is trimmed. -/
theorem Rfc.DomainName.rdropWhile {dom : Bytes} (h : Rfc.DomainName dom) : dom ≠ [] ∧ dom.rdropWhile (· == DOT) = dom := by
  obtain ⟨labels, hne, hlabels, rfl⟩ := h
  induction labels with
  | nil => exact absurd rfl hne
  | cons l labels ih =>
    obtain ⟨hl, hbytes⟩ := hlabels l (by simp)
    have hdot : ∀ b ∈ l, (b == DOT) = false := fun b hb => by simpa using (label_byte (hbytes b hb)).2.2.2.2.1
    cases labels with
    | nil =>
      rw [List.intercalate_singleton]
      refine ⟨hl, ?_⟩
      obtain ⟨l', b, rfl⟩ := (List.eq_nil_or_concat' l).resolve_left hl
      exact List.rdropWhile_concat_neg _ _ _ (by simp [hdot b (by simp)])
    | cons l' labels =>
      obtain ⟨hrest, hdrop⟩ := ih (by simp) fun x hx => hlabels x (by simp [hx])
      rw [List.intercalate_cons_cons]
      refine ⟨by simp [hl], ?_⟩
      have hkeep : ∀ v : Bytes, (v ++ [DOT].intercalate (l' :: labels)).rdropWhile (· == DOT) =
          v ++ [DOT].intercalate (l' :: labels) := by
        intro v
        induction v with
        | nil => exact hdrop
        | cons b v ihv =>
          rw [List.cons_append, rdropWhile_cons_of_ne_nil _ (by rw [ihv]; simp [hrest]), ihv]
      exact hkeep _

theorem Rfc.DomainName.bytes {dom : Bytes} (h : Rfc.DomainName dom) : ∀ b ∈ dom,
    (isAsciiControl b = false ∧ b.toNat < 128) ∧ b ≠ LPAREN ∧ b ≠ RPAREN ∧ b ≠ DQUOTE ∧ isDomainByte b = true ∧
      isWhitespace (asciiChar b) = false := by
  obtain ⟨labels, -, hlabels, rfl⟩ := h
  intro b hb
  rcases mem_intercalate hb with rfl | ⟨l, hl, hbl⟩
  · decide
  · obtain ⟨h1, h2, h3, h4, -, h5, h6⟩ := label_byte ((hlabels l hl).2 b hbl)
    exact ⟨h1, h2, h3, h4, h5, h6⟩

/-- **An address of the grammar is one for the parser.** -/
theorem Rfc.AddrSpec.yields {dom v : Bytes} (h : Rfc.AddrSpec dom v) :
    ∃ o, Yields .top .top v o ∧ AddressText (lower dom) (o.map asciiChar) := by
  obtain ⟨hlocal, hw, hdom, hw'⟩ := h
  obtain ⟨l, hl, hlocal⟩ := hlocal.yields
  obtain ⟨w, hblank, hw⟩ := hw.cfws
  obtain ⟨w', hblank', hw'⟩ := hw'.cfws
  have hat : Yields .top .top [AT] [AT] := yields_plain (by simp [AT, isAsciiControl, LPAREN, RPAREN, DQUOTE])
  have hdomain := yields_plain fun b hb =>
    have h := hdom.bytes b hb
    ⟨h.1, h.2.1, h.2.2.1, h.2.2.2.1⟩
  refine ⟨_, hl.append (hat.append (hw.append (hdomain.append hw'))), l.map asciiChar, (w ++ (dom ++ w')).map asciiChar, ?_,
    hlocal, ?_⟩
  · rw [List.map_append, List.map_append]
    rfl
  · rw [List.map_append, List.map_append, trim_pad (blank_white hblank) (blank_white hblank'), trim_solid, utf8_chars hdomain.low]
    · obtain ⟨hne, hdrop⟩ := hdom.rdropWhile
      exact ⟨fun b hb => (hdom.bytes b hb).2.2.2.2.1, by rw [hdrop], by simpa [lower] using hne⟩
    · intro c hc
      obtain ⟨b, hb, rfl⟩ := List.mem_map.1 hc
      exact (hdom.bytes b hb).2.2.2.2.2

/-! ## Mailboxes -/

/-- A whole value that the comment loop reads. -/
theorem Yields.fromDomain {value m : Bytes} (h : Yields .top .top value m) :
    fromDomain value = fromText false false (trim (m.map asciiChar)) ∧ Clean m := by
  have hlow := h.low
  obtain ⟨u, hu, hrun, hkept⟩ := h
  obtain ⟨hun, hfolds⟩ := hu.folds []
  rw [List.append_nil] at hun hfolds
  rw [show removeFolds [] = [] from rfl, List.append_nil] at hfolds
  have hun : unfoldable value = true := by rw [hun]; rfl
  constructor
  · rw [fromDomain_eq, hfolds, if_pos ⟨hun, hrun⟩, hkept, fromUtf8_ascii hlow]
  · rw [← hkept, ← hfolds]
    exact clean_uncomment hun .top

theorem White.displays {w : Bytes} (h : White w) : Displays false w := by
  obtain ⟨s, rfl, hs⟩ := h
  refine displays_plain fun b hb => Or.inr (Or.inr ?_)
  obtain ⟨c, hc, hbc⟩ := List.mem_flatMap.1 hb
  by_cases hlt : c.toNat < 128
  · rw [utf8_ascii hlt, List.mem_singleton] at hbc
    rcases (hs c hc).2 hlt with rfl | rfl <;> exact Or.inl (by rw [hbc]; decide)
  · exact Or.inr (utf8_nonascii (by omega) b hbc)

theorem Level.of_append {w v : Bytes} (hw : ∀ b ∈ w, isStructural b = false) (h : Level (w ++ v)) : Level v := by
  induction w with
  | nil => exact h
  | cons b w ih =>
    have hb := (isStructural_eq_false (hw b (by simp))).1
    rw [List.cons_append] at h
    refine ih (fun x hx => hw x (by simp [hx])) ?_
    generalize w ++ v = x at h
    cases h with
    | byte _ hr => exact hr
    | quoted => exact absurd rfl hb

/-- White space before a phrase does not matter. -/
theorem Displays.dropWhile {tab : Bool} {l : List Char} (h : Displays tab (utf8 l)) (hclean : Clean (utf8 l)) :
    Displays tab (utf8 (l.dropWhile isWhitespace)) := by
  have hcut : utf8 l = utf8 (l.takeWhile isWhitespace) ++ utf8 (l.dropWhile isWhitespace) := by
    rw [← utf8_append, List.takeWhile_append_dropWhile]
  have hspace : ∀ c ∈ l.takeWhile isWhitespace, isWhitespace c = true := fun c hc => List.mem_takeWhile_imp hc
  have hwhite : White (utf8 (l.takeWhile isWhitespace)) := by
    refine white_utf8 hspace (hclean.mono ?_)
    rw [hcut]
    exact List.subset_append_left _ _
  rw [hcut] at h
  constructor
  · exact h.level.of_append (white_not_structural hspace)
  · intro r
    rw [← h.display, List.append_assoc, hwhite.displays.display, Bool.not_false, Bool.true_and]

/-- **A mailbox of the grammar is read, with its domain in lower case, if and only if its phrase
escapes no tab.** -/
theorem Rfc.Mailbox.fromDomain {dom value : Bytes} {tab : Bool} (h : Rfc.Mailbox dom tab value) :
    fromDomain value = .ok (if tab then none else some (lower dom)) := by
  cases h with
  | addrSpec ha =>
    obtain ⟨o, ho, haddress⟩ := ha.yields
    obtain ⟨hread, hclean⟩ := ho.fromDomain
    rw [hread, if_neg (by simp)]
    refine fromText_bare haddress.trim (clean_trim ?_)
    rwa [utf8_chars ho.low]
  | nameAddr hp hw ha hw' =>
    obtain ⟨p, hp, hdisplay⟩ := hp.yields
    obtain ⟨w, hblank, hw⟩ := hw.cfws
    obtain ⟨o, ho, haddress⟩ := ha.yields
    obtain ⟨w', hblank', hw'⟩ := hw'.cfws
    have hopen : Yields .top .top [LANGLE] [LANGLE] := yields_plain (by simp [LANGLE, isAsciiControl, LPAREN, RPAREN, DQUOTE])
    have hend : Yields .top .top [RANGLE] [RANGLE] := yields_plain (by simp [RANGLE, isAsciiControl, LPAREN, RPAREN, DQUOTE])
    have hphrase := hp.append hw
    have hall := hphrase.append (hopen.append (ho.append (hend.append hw')))
    rw [List.append_assoc] at hall
    obtain ⟨hread, hclean⟩ := hall.fromDomain
    -- the text between white space: a phrase, the address in brackets, and nothing
    have htext : trim ((p ++ w ++ ([LANGLE] ++ (o ++ ([RANGLE] ++ w')))).map asciiChar) =
        ((p ++ w).map asciiChar).dropWhile isWhitespace ++
          '<' :: (o.map asciiChar ++ '>' :: (w'.map asciiChar).rdropWhile isWhitespace) := by
      have := trim_char (c := '<') (by decide) ((p ++ w).map asciiChar) (o.map asciiChar ++ '>' :: w'.map asciiChar)
      rw [rdropWhile_char (by decide)] at this
      rw [← this]
      simp [show asciiChar LANGLE = '<' from rfl, show asciiChar RANGLE = '>' from rfl]
    have hdisplays : Displays tab (utf8 ((p ++ w).map asciiChar)) := by
      have := hdisplay.append (blank_displays hblank)
      rwa [Bool.or_false, ← utf8_chars hphrase.low] at this
    have hfront := hdisplays.dropWhile (by
      rw [utf8_chars hphrase.low]
      exact hclean.mono (List.subset_append_left _ _))
    have hname := hfront.display []
    rw [List.append_nil] at hname
    refine hread.trans ?_
    rw [htext, fromText_angle hfront.level haddress.trim ?_ ?_, displayName, hname]
    · cases tab <;> simp [displayLoop]
    · rw [trim_rdropWhile]
      have := trim_pad (x := []) (blank_white hblank') fun c hc => absurd hc List.not_mem_nil
      exact (by simpa using this : trim (w'.map asciiChar) = trim [])
    · rw [utf8_chars ho.low]
      exact hclean.mono (by intro b hb; simp [hb])

/-- **When a message from a mailbox of the grammar is read and signed.** -/
theorem mailbox_read_iff {dom value : Bytes} {tab : Bool} (h : Rfc.Mailbox dom tab value) :
    (fromDomain value = .ok (some (lower dom)) ↔ tab = false) ∧
      ∀ {Key : Type} {env : Env Key} {config : RuntimeConfig Key} {headers : List Header} {header : Header} (bodyHash : Digest),
        env.ssl.Documented → env.Works → headers.filter (·.is fromName) = [header] → header.value = value →
        lower dom = config.domain.bytes → ((∃ signed, sign env config headers bodyHash = .ok signed) ↔ tab = false) := by
  have hread := h.fromDomain
  refine ⟨?_, fun {Key env config headers header} bodyHash hssl hworks hfilter hvalue hdomain => ?_⟩
  · rw [hread]
    cases tab <;> simp
  · constructor
    · rintro ⟨signed, hsigned⟩
      obtain ⟨header', domain, hfilter', hdomain', -⟩ := eligible_of_sign hsigned
      obtain rfl : header = header' := by simpa using hfilter.symm.trans hfilter'
      rw [hvalue, hread] at hdomain'
      cases tab <;> simp_all
    · rintro rfl
      refine sign_works hssl hworks ⟨header, lower dom, hfilter, ?_, ?_⟩ bodyHash
      · rw [hvalue, hread]
        rfl
      · rw [lower_idem, hdomain]

/-! ## A tab in a phrase -/

theorem exampleAddress : Rfc.AddrSpec (ascii "example.com") (ascii "x@example.com") := by
  have hatoms : ∀ a ∈ [ascii "x"], a ≠ [] ∧ ∀ b ∈ a, Rfc.isAtext b = true := by
    simpa using (by decide : [ascii "x"].all (fun a => !a.isEmpty && a.all Rfc.isAtext) = true)
  have hlabels : ∀ l ∈ [ascii "example", ascii "com"], l ≠ [] ∧ ∀ b ∈ l, (isAsciiAlphanumeric b || b == 45) = true := by
    simpa using (by decide : [ascii "example", ascii "com"].all (fun l => !l.isEmpty && l.all fun b =>
      isAsciiAlphanumeric b || b == 45) = true)
  have hlocal : Rfc.LocalPart ([] ++ ([DOT].intercalate [ascii "x"] ++ [])) := .dotAtom (Or.inl rfl) (by simp) hatoms (Or.inl rfl)
  have haddr : Rfc.AddrSpec (ascii "example.com") (([] ++ ([DOT].intercalate [ascii "x"] ++ [])) ++ AT :: ([] ++ (ascii "example.com" ++ []))) :=
    .mk hlocal (Or.inl rfl) ⟨[ascii "example", ascii "com"], by simp, hlabels, by decide⟩ (Or.inl rfl)
  exact haddr

/-- A nested comment, a quoted string, a fold and an address. -/
def examplePhrased : Bytes := ascii "(a(b)) \"x y\"\r\n <x@example.com>"

theorem examplePhrased_mailbox : Rfc.Mailbox (ascii "example.com") false examplePhrased := by
  have hinner : Rfc.CommentBody ([] ++ 98 :: []) := .text (Or.inl rfl) (by decide) (.done (Or.inl rfl))
  have hcomment : Rfc.CommentBody ([] ++ 97 :: ([] ++ LPAREN :: (([] ++ 98 :: []) ++ RPAREN :: []))) :=
    .text (Or.inl rfl) (by decide) (.comment (Or.inl rfl) hinner (.done (Or.inl rfl)))
  have hspace : Rfc.Fws [SP] := .wsp (by simp) (by simp [isWsp])
  have hfront : Rfc.Opt Rfc.Cfws ([] ++ LPAREN :: (([] ++ 97 :: ([] ++ LPAREN :: (([] ++ 98 :: []) ++ RPAREN :: []))) ++ RPAREN :: [SP])) :=
    Or.inr (.comment (Or.inl rfl) hcomment (.fws hspace))
  have hquoted : Rfc.QuotedBody false ([] ++ 120 :: ([SP] ++ 121 :: [])) :=
    .text (Or.inl rfl) (by decide) (.text (Or.inr hspace) (by decide) (.done (Or.inl rfl)))
  have hfold : Rfc.Opt Rfc.Cfws ([] ++ (CRLF ++ [SP])) := Or.inr (.fws (.fold (by simp) (by simp) (by simp [isWsp])))
  have hphrase : Rfc.Phrase false _ := Rfc.Phrase.quoted (.mk hfront hquoted hfold) .nil
  have hmailbox := Rfc.Mailbox.nameAddr hphrase (Or.inl rfl) exampleAddress (Or.inl rfl)
  convert hmailbox using 1
  decide

def examplePhrasedFrom : Header := ⟨fromName, examplePhrased, fromName_ok, by decide⟩

/-- It is read, and the message is signed. -/
theorem mailbox_read_address : fromDomain examplePhrased = .ok (some (lower (ascii "example.com"))) ∧
    ∃ signed, sign exampleEnv exampleConfig [examplePhrasedFrom] emptyDigest = .ok signed := by
  obtain ⟨hread, hsigned⟩ := mailbox_read_iff examplePhrased_mailbox
  exact ⟨hread.2 rfl, (hsigned emptyDigest exampleSsl_documented exampleEnv_works
    (show [examplePhrasedFrom].filter (·.is fromName) = [examplePhrasedFrom] by decide) rfl (by decide)).2 rfl⟩

/-- A phrase of one quoted string that holds a backslash and a tab. -/
def exampleTabbed : Bytes := DQUOTE :: ascii "a" ++ [BACKSLASH, TAB] ++ ascii "b" ++ DQUOTE :: ascii " <x@example.com>"

/-- **A mailbox of the grammar that is not read**: its phrase escapes a tab. The same phrase
without the backslash is read, and so is an escaped tab in a local part. -/
theorem tab_escaped_unread : Rfc.Mailbox (ascii "example.com") true exampleTabbed ∧ fromDomain exampleTabbed = .ok none ∧
    fromDomain (DQUOTE :: ascii "a" ++ [TAB] ++ ascii "b" ++ DQUOTE :: ascii " <x@example.com>") =
      .ok (some (ascii "example.com")) ∧
    fromDomain (DQUOTE :: ascii "a" ++ [BACKSLASH, TAB] ++ ascii "b" ++ DQUOTE :: ascii "@example.com") =
      .ok (some (ascii "example.com")) := by
  refine ⟨?_, by decide +kernel, by decide +kernel, by decide +kernel⟩
  have hend : Rfc.QuotedBody false ([] ++ 98 :: []) := .text (Or.inl rfl) (by decide) (.done (Or.inl rfl))
  have hpair : Rfc.QuotedBody true ([] ++ BACKSLASH :: TAB :: ([] ++ 98 :: [])) :=
    Rfc.QuotedBody.pair (b := TAB) (Or.inl rfl) (by decide) hend
  have hbody : Rfc.QuotedBody true ([] ++ 97 :: ([] ++ BACKSLASH :: TAB :: ([] ++ 98 :: []))) :=
    .text (Or.inl rfl) (by decide) hpair
  have hspace : Rfc.Opt Rfc.Cfws [SP] := Or.inr (.fws (.wsp (by simp) (by simp [isWsp])))
  have hphrase := Rfc.Phrase.quoted (.mk (Or.inl rfl) hbody hspace) .nil
  exact .nameAddr hphrase (Or.inl rfl) exampleAddress (Or.inl rfl)

end DkimLite
