import DkimLite.MailboxSpec

/-!
# `from_domain`, stage by stage

`fromDomain_sound` says what is accepted; here is the other direction, that nothing else decides.

| here | there |
| --- | --- |
| `Lex`, `lexRun`, `uncomment` | the comment loop as a function of the text: the state it ends in and what it keeps (`src/dkim.rs:272-318`) |
| `fromDomain_eq` | the function as unfolding, the comment loop, and the rest |
| `Level` | a text the scans for `<`, `>` and `@` pass without a change of state |
| `MailboxText`, `fromText_iff` | what the rest accepts, in the slices it cuts (`:320-371`) |
-/

namespace DkimLite
open Rust Text

/-! ## Unfolding a piece of text -/

/-- A piece that unfolds to `u`, whatever follows it. -/
structure Unfolds (v u : Bytes) : Prop where
  folds : ∀ r, unfoldable (v ++ r) = unfoldable r ∧ removeFolds (v ++ r) = u ++ removeFolds r
  low : ∀ b ∈ u, b.toNat < 128

theorem Unfolds.nil : Unfolds [] [] := ⟨fun _ => ⟨rfl, rfl⟩, by simp⟩

theorem Unfolds.append {v u v' u' : Bytes} (h : Unfolds v u) (h' : Unfolds v' u') : Unfolds (v ++ v') (u ++ u') := by
  constructor
  · intro r
    obtain ⟨h1, h2⟩ := h.folds (v' ++ r)
    obtain ⟨h3, h4⟩ := h'.folds r
    rw [List.append_assoc, h1, h2, h3, h4, List.append_assoc]
    exact ⟨rfl, rfl⟩
  · intro b hb
    rcases List.mem_append.1 hb with hb | hb
    · exact h.low b hb
    · exact h'.low b hb

theorem blank_unfolds {w : Bytes} (h : Blank w) : Unfolds w w := by
  induction w with
  | nil => exact .nil
  | cons b w ih =>
    have hb : Unfolds [b] [b] := by
      rcases wsp_cases (h b (by simp)) with rfl | rfl <;>
        refine ⟨fun r => ⟨?_, ?_⟩, by simp [SP, TAB]⟩
      · exact unfoldable_other (by decide) r
      · exact removeFolds_other (by decide) r
      · exact unfoldable_other (by decide) r
      · exact removeFolds_other (by decide) r
    exact hb.append (ih fun x hx => h x (by simp [hx]))

/-- A fold is undone. -/
theorem blank_unfolds_fold {w : Bytes} (h : Blank w) (hne : w ≠ []) : Unfolds (CRLF ++ w) w := by
  obtain ⟨d, w, rfl⟩ := List.exists_cons_of_ne_nil hne
  have hrun := blank_unfolds h
  refine ⟨fun r => ?_, hrun.low⟩
  rw [← (hrun.folds r).1, ← (hrun.folds r).2]
  exact ⟨unfoldable_fold (h d (by simp)) _, removeFolds_fold (h d (by simp)) _⟩

/-! ## The comment loop -/

/-- Where the comment loop stands: its three variables but `mailbox`. -/
structure Lex where
  quoted : Bool
  escaped : Bool
  depth : Nat
deriving DecidableEq

/-- Outside quoted strings and comments. -/
abbrev Lex.top : Lex := ⟨false, false, 0⟩

/-- After a byte; a `)` that closes nothing is passed over. -/
def Lex.next (s : Lex) (b : UInt8) : Lex :=
  if s.escaped then { s with escaped := false }
  else if 0 < s.depth then
    if b = BACKSLASH then { s with escaped := true }
    else if b = LPAREN then { s with depth := s.depth + 1 }
    else if b = RPAREN then { s with depth := s.depth - 1 }
    else s
  else if s.quoted then
    if b = BACKSLASH then { s with escaped := true }
    else if b = DQUOTE then { s with quoted := false }
    else s
  else if b = LPAREN then { s with depth := 1 }
  else if b = DQUOTE then { s with quoted := true }
  else s

/-- A `)` that closes nothing. -/
def Lex.stray (s : Lex) (b : UInt8) : Bool := !s.escaped && s.depth == 0 && !s.quoted && b == RPAREN

/-- What the loop keeps of a byte. -/
def Lex.emit (s : Lex) (b : UInt8) : Bytes :=
  if 0 < s.depth then []
  else if !s.escaped && !s.quoted && b == LPAREN then [SP]
  else [b]

def lexRun : Lex → Bytes → Option Lex
  | s, [] => some s
  | s, b :: r => if s.stray b then none else lexRun (s.next b) r

def uncomment : Lex → Bytes → Bytes
  | _, [] => []
  | s, b :: r => s.emit b ++ uncomment (s.next b) r

theorem lexRun_append : ∀ (s : Lex) (v w : Bytes), lexRun s (v ++ w) = (lexRun s v).bind (lexRun · w)
  | _, [], _ => rfl
  | s, b :: v, w => by
    rw [List.cons_append, lexRun, lexRun]
    split
    · rfl
    · exact lexRun_append _ v w

theorem uncomment_append : ∀ (s : Lex) (v w : Bytes),
    uncomment s (v ++ w) = uncomment s v ++ uncomment (v.foldl Lex.next s) w
  | _, [], _ => rfl
  | s, b :: v, w => by
    rw [List.cons_append, uncomment, uncomment, uncomment_append _ v w, List.foldl_cons, List.append_assoc]

/-- The loop with a mailbox collected so far. -/
def Lex.keeping (s : Lex) (mailbox : Bytes) : StripState := ⟨mailbox, s.quoted, s.escaped, s.depth⟩

theorem stripByte_eq (s : Lex) (m : Bytes) (b : UInt8) : stripByte (s.keeping m) b =
    .ok (if s.stray b then none else some ((s.next b).keeping (m ++ s.emit b))) := by
  obtain ⟨quoted, escaped, depth⟩ := s
  cases escaped with
  | true =>
    -- an escaped byte is kept outside comments
    cases depth <;> simp [stripByte, Lex.keeping, Lex.stray, Lex.next, Lex.emit]
  | false =>
    cases depth with
    | succ depth =>
      simp only [stripByte, Lex.keeping, Lex.stray, Lex.next, Lex.emit]
      by_cases h1 : b = BACKSLASH
      · simp [h1]
      by_cases h2 : b = LPAREN
      · simp [h2, LPAREN, BACKSLASH]
      by_cases h3 : b = RPAREN
      · simp [h3, LPAREN, BACKSLASH, RPAREN, checkedSub]
      · simp [h1, h2, h3]
    | zero =>
      cases quoted with
      | true =>
        simp only [stripByte, Lex.keeping, Lex.stray, Lex.next, Lex.emit]
        by_cases h1 : b = BACKSLASH
        · simp [h1]
        by_cases h2 : b = DQUOTE
        · simp [h2, DQUOTE, BACKSLASH]
        · simp [h1, h2]
      | false =>
        simp only [stripByte, Lex.keeping, Lex.stray, Lex.next, Lex.emit]
        by_cases h1 : b = LPAREN
        · simp [h1, LPAREN, RPAREN]
        by_cases h2 : b = RPAREN
        · simp [h2, LPAREN, RPAREN]
        by_cases h3 : b = DQUOTE
        · simp [h3, DQUOTE, LPAREN, RPAREN]
        · simp [h1, h2, h3]

/-- **The loop is the run of `Lex`**, and collects what `uncomment` keeps. -/
theorem stripComments_eq : ∀ (v : Bytes) (s : Lex) (m : Bytes), stripComments (s.keeping m) v =
    .ok ((lexRun s v).map fun t => t.keeping (m ++ uncomment s v))
  | [], s, m => by simp [stripComments, lexRun, uncomment]
  | b :: r, s, m => by
    rw [stripComments_cons, stripByte_eq, Exec.ok_bind, lexRun]
    by_cases hstray : s.stray b = true
    · simp [hstray]
    · simp only [hstray, Bool.false_eq_true, if_false]
      rw [stripComments_eq r, uncomment, List.append_assoc]

/-- Outside quoted-pairs a run of spaces and tabs changes no state; comments drop it. -/
theorem blank_lex {w : Bytes} (h : Blank w) {s : Lex} (hs : s.escaped = false) :
    lexRun s w = some s ∧ uncomment s w = if 0 < s.depth then [] else w := by
  induction w with
  | nil => simp [lexRun, uncomment]
  | cons b w ih =>
    obtain ⟨hrun, hkept⟩ := ih fun x hx => h x (by simp [hx])
    obtain ⟨quoted, escaped, depth⟩ := s
    obtain rfl : escaped = false := hs
    have hstep : Lex.stray ⟨quoted, false, depth⟩ b = false ∧ Lex.next ⟨quoted, false, depth⟩ b = ⟨quoted, false, depth⟩ ∧
        Lex.emit ⟨quoted, false, depth⟩ b = if 0 < depth then [] else [b] := by
      rcases wsp_cases (h b (by simp)) with rfl | rfl <;>
        simp [Lex.stray, Lex.next, Lex.emit, SP, TAB, RPAREN, LPAREN, BACKSLASH, DQUOTE]
    rw [lexRun, uncomment, hstep.1, hstep.2.1, hstep.2.2]
    refine ⟨hrun, ?_⟩
    rw [hkept]
    split <;> rfl

/-- **`from_domain` as unfolding, the comment loop and the rest.** -/
theorem fromDomain_eq (value : Bytes) : fromDomain value =
    if unfoldable value = true ∧ lexRun .top (removeFolds value) = some .top then
      match fromUtf8 (uncomment .top (removeFolds value)) with
      | some mailbox => fromText false false (trim mailbox)
      | none => .ok none
    else .ok none := by
  unfold fromDomain
  rw [unfoldValue_eq]
  by_cases hun : unfoldable value = true
  swap
  · simp [hun]
  have hstrip := stripComments_eq (removeFolds value) .top []
  rw [show Lex.keeping .top [] = ⟨[], false, false, 0⟩ from rfl, List.nil_append] at hstrip
  simp only [hun, if_true, Exec.ok_bind, hstrip, true_and]
  cases hrun : lexRun .top (removeFolds value) with
  | none => rfl
  | some s =>
    obtain ⟨quoted, escaped, depth⟩ := s
    by_cases htop : (⟨quoted, escaped, depth⟩ : Lex) = .top
    · cases htop
      simp only [Option.map_some, Lex.keeping]
      cases fromUtf8 (uncomment .top (removeFolds value)) <;> rfl
    · have hopen : (quoted || escaped || depth != 0) = true := by
        cases quoted <;> cases escaped <;> cases depth <;> simp_all
      simp [Lex.keeping, hopen, htop]

/-! ## Scanning for brackets and the at sign -/

/-- A byte that one of the scans looks for outside quoted strings. -/
def isStructural (b : UInt8) : Bool := [DQUOTE, LANGLE, RANGLE, COMMA, 58, SEMICOLON, AT].contains b

/-- A text whose quoted strings are closed, with no structural byte outside them. -/
inductive Level : Bytes → Prop
  | nil : Level []
  | byte {b : UInt8} {r : Bytes} : isStructural b = false → Level r → Level (b :: r)
  | quoted {q r : Bytes} : QText q → Level r → Level (DQUOTE :: (q ++ r))

theorem Level.append {v w : Bytes} (hv : Level v) (hw : Level w) : Level (v ++ w) := by
  induction hv with
  | nil => exact hw
  | byte hb _ ih => exact .byte hb ih
  | quoted hq _ ih =>
    rw [List.cons_append, List.append_assoc]
    exact .quoted hq ih

theorem Level.of_forall {v : Bytes} (h : ∀ b ∈ v, isStructural b = false) : Level v := by
  induction v with
  | nil => exact .nil
  | cons b v ih => exact .byte (h b (by simp)) (ih fun x hx => h x (by simp [hx]))

theorem isStructural_eq_false {b : UInt8} (h : isStructural b = false) : b ≠ DQUOTE ∧ b ≠ LANGLE ∧ b ≠ RANGLE ∧ b ≠ COMMA ∧
    b ≠ 58 ∧ b ≠ SEMICOLON ∧ b ≠ AT := by
  simpa [isStructural] using h

/-- A scan of a text at an offset, outside quoted strings or inside one: it follows them, and nothing
but a structural byte outside them is anything to it. -/
structure FollowsQuotes {ρ : Type} (scan : Bool → Nat → Bytes → ρ) : Prop where
  opening : ∀ i r, scan false i (DQUOTE :: r) = scan true (i + 1) r
  plain : ∀ {b}, isStructural b = false → ∀ i r, scan false i (b :: r) = scan false (i + 1) r
  closing : ∀ i r, scan true i (DQUOTE :: r) = scan false (i + 1) r
  pair : ∀ b i r, scan true i (BACKSLASH :: b :: r) = scan true (i + 2) r
  other : ∀ {b}, b ≠ DQUOTE → b ≠ BACKSLASH → ∀ i r, scan true i (b :: r) = scan true (i + 1) r

namespace FollowsQuotes
variable {ρ : Type} {scan : Bool → Nat → Bytes → ρ}

theorem quoted (hscan : FollowsQuotes scan) {q : Bytes} (h : QText q) (i : Nat) (r : Bytes) :
    scan true i (q ++ r) = scan false (i + q.length) r := by
  induction h generalizing i with
  | close => exact hscan.closing i r
  | @pair b q _ ih =>
    rw [List.cons_append, List.cons_append, hscan.pair, ih, List.length_cons, List.length_cons]
    congr 1
    omega
  | @other b q h1 h2 _ ih =>
    rw [List.cons_append, hscan.other h1 h2, ih, List.length_cons]
    congr 1
    omega

/-- **A scan passes over a level text.** -/
theorem level (hscan : FollowsQuotes scan) {v : Bytes} (h : Level v) (i : Nat) (r : Bytes) :
    scan false i (v ++ r) = scan false (i + v.length) r := by
  induction h generalizing i with
  | nil => rfl
  | @byte b v hb _ ih =>
    rw [List.cons_append, hscan.plain hb, ih, List.length_cons]
    congr 1
    omega
  | @quoted q v hq _ ih =>
    rw [List.cons_append, List.append_assoc, hscan.opening, hscan.quoted hq, ih, List.length_cons, List.length_append]
    congr 1
    omega

end FollowsQuotes

theorem angleScan_followsQuotes (start stop : Option Nat) :
    FollowsQuotes fun quoted => angleScan ⟨false, quoted, start, stop⟩ where
  opening i r := by simp [angleScan, angleByte]
  plain hb i r := by
    obtain ⟨h1, h2, h3, h4, h5, h6, -⟩ := isStructural_eq_false hb
    simp [angleScan, angleByte, h1, h2, h3, h4, h5, h6]
  closing i r := by simp [angleScan, angleByte, DQUOTE, BACKSLASH]
  pair b i r := by simp [angleScan, angleByte]
  other h1 h2 i r := by simp [angleScan, angleByte, h1, h2]

theorem atScan_followsQuotes (separator : Option Nat) : FollowsQuotes fun quoted => atScan ⟨false, quoted, separator⟩ where
  opening i r := by simp [atScan, atByte]
  plain hb i r := by
    obtain ⟨h1, -, -, -, -, -, h2⟩ := isStructural_eq_false hb
    simp [atScan, atByte, h1, h2]
  closing i r := by simp [atScan, atByte, DQUOTE, BACKSLASH]
  pair b i r := by simp [atScan, atByte]
  other h1 h2 i r := by simp [atScan, atByte, h1, h2]

theorem Level.angleScan {v : Bytes} (h : Level v) (start stop : Option Nat) (i : Nat) (r : Bytes) :
    angleScan ⟨false, false, start, stop⟩ i (v ++ r) = angleScan ⟨false, false, start, stop⟩ (i + v.length) r :=
  (angleScan_followsQuotes start stop).level h i r

theorem Level.atScan {v : Bytes} (h : Level v) (separator : Option Nat) (i : Nat) (r : Bytes) :
    atScan ⟨false, false, separator⟩ i (v ++ r) = atScan ⟨false, false, separator⟩ (i + v.length) r :=
  (atScan_followsQuotes separator).level h i r

theorem level_of_atom {b : UInt8} (h : atomByte b = true) : isStructural b = false := by
  revert h
  exact forall_uint8 (P := fun b => atomByte b = true → isStructural b = false) (by decide +kernel) b

theorem level_of_high {b : UInt8} (h : 128 ≤ b.toNat) : isStructural b = false := by
  revert h
  exact forall_uint8 (P := fun b => 128 ≤ b.toNat → isStructural b = false) (by decide +kernel) b

theorem level_of_wsp {b : UInt8} (h : isWsp b = true) : isStructural b = false := by
  revert h
  exact forall_uint8 (P := fun b => isWsp b = true → isStructural b = false) (by decide +kernel) b

theorem level_of_domain {b : UInt8} (h : isDomainByte b = true) : isStructural b = false := by
  revert h
  exact forall_uint8 (P := fun b => isDomainByte b = true → isStructural b = false) (by decide +kernel) b

theorem Phrase.level {p : Bytes} (h : Phrase p) : Level p := by
  induction h with
  | nil => exact .nil
  | byte hb _ ih =>
    refine .byte ?_ ih
    rcases hb with h | rfl | h | h
    · exact level_of_atom h
    · rfl
    · exact level_of_wsp h
    · exact level_of_high h
  | quoted hq _ ih => exact .quoted hq ih

theorem LocalPart.level {l : Bytes} (h : LocalPart l) : Level l := by
  cases h with
  | quoted hq =>
    have := Level.quoted hq .nil
    rwa [List.append_nil] at this
  | dotAtom hd =>
    obtain ⟨parts, -, hparts, rfl⟩ := hd
    refine Level.of_forall fun b hb => ?_
    rcases mem_intercalate hb with rfl | ⟨p, hp, hbp⟩
    · rfl
    · exact level_of_atom ((hparts p hp).2 b hbp)

theorem white_not_structural {w : List Char} (h : ∀ c ∈ w, isWhitespace c = true) : ∀ b ∈ utf8 w, isStructural b = false := by
  intro b hb
  obtain ⟨c, hc, hbc⟩ := List.mem_flatMap.1 hb
  by_cases hlt : c.toNat < 128
  · have hws := h c hc
    rw [utf8_ascii hlt, List.mem_singleton] at hbc
    rw [char_eq_asciiChar hlt, ← hbc] at hws
    have hn : b.toNat < 128 := by rw [hbc]; simp only [UInt8.toNat_ofNat']; omega
    revert hws hn
    exact forall_uint8 (P := fun b => isWhitespace (asciiChar b) = true → b.toNat < 128 → isStructural b = false)
      (by decide +kernel) b
  · exact level_of_high (utf8_nonascii (by omega) b hbc)

theorem level_utf8_white {w : List Char} (h : ∀ c ∈ w, isWhitespace c = true) : Level (utf8 w) :=
  .of_forall (white_not_structural h)

/-- White space around a level text changes nothing. -/
theorem level_of_trim {t : List Char} (h : Level (utf8 (trim t))) : Level (utf8 t) := by
  obtain ⟨w, w', ht, hw, hw'⟩ := trim_decomp t
  rw [ht, utf8_append, utf8_append]
  exact ((level_utf8_white hw).append h).append (level_utf8_white hw')

/-! ## Addresses -/

theorem localQuoted_complete {len : Nat} {q : Bytes} (hq : QText q) (hclean : Clean q) {i : Nat} (hlen : i + q.length = len) :
    localQuoted len i false q = .ok true := by
  have hplain : ∀ {b : UInt8} {v : Bytes}, Clean (b :: v) → (isAsciiControl b && b != TAB) = false := by
    intro b v h
    cases hc : isAsciiControl b with
    | false => rfl
    | true => simp [h b (by simp) hc]
  induction hq generalizing i with
  | close =>
    have hlast : i = len - 1 := by simp at hlen; omega
    have hsub : checkedSub len 1 = .ok (len - 1) := checkedSub_ok (by simp at hlen; omega)
    simp [localQuoted, hsub, hlast, DQUOTE, isAsciiControl, BACKSLASH]
  | @pair b q _ ih =>
    have hrest : Clean (b :: q) := hclean.mono (by intro x hx; simp [hx])
    have hstep := ih (hrest.mono (by intro x hx; simp [hx])) (i := i + 1 + 1) (by simp at hlen; omega)
    have hpair : localQuoted len (i + 1) true (b :: q) = localQuoted len (i + 1 + 1) false q := by
      rw [localQuoted, hplain hrest]
      simp
    rw [localQuoted, hplain hclean]
    simpa [hpair] using hstep
  | @other b q h1 h2 _ ih =>
    have hstep := ih (hclean.mono (by intro x hx; simp [hx])) (i := i + 1) (by simp at hlen; omega)
    rw [localQuoted, hplain hclean]
    simpa [h1, h2] using hstep

theorem localPart_complete {l : Bytes} (h : LocalPart l) (hclean : Clean l) : localPart l = .ok true := by
  cases h with
  | @quoted q hq =>
    have hrest : Clean q := hclean.mono (by intro x hx; simp [hx])
    have : localQuoted (DQUOTE :: q).length 1 false q = .ok true := localQuoted_complete hq hrest (by simp; omega)
    simpa [localPart] using this
  | dotAtom hd =>
    obtain ⟨parts, hne, hparts, rfl⟩ := hd
    have hatoms : ∀ b ∈ [DOT].intercalate parts, b = DOT ∨ atomByte b = true := by
      intro b hb
      rcases mem_intercalate hb with rfl | ⟨p, hp, hbp⟩
      · exact Or.inl rfl
      · exact Or.inr ((hparts p hp).2 b hbp)
    have hhead : ([DOT].intercalate parts).head? ≠ some DQUOTE := by
      intro h
      rcases hatoms DQUOTE (List.mem_of_head? h) with h | h <;> revert h <;> decide
    have hsplit : ([DOT].intercalate parts).splitOn DOT = parts :=
      List.splitOn_intercalate DOT (fun p hp hdot => by
        have := (hparts p hp).2 DOT hdot
        revert this
        decide) hne
    have hnonempty : [DOT].intercalate parts ≠ [] := by
      intro h
      rw [h] at hsplit
      obtain rfl : parts = [[]] := hsplit.symm
      exact (hparts [] (by simp)).1 rfl
    rw [localPart, if_neg hhead, hsplit]
    simp only [Exec.pure_eq, Exec.ok.injEq, Bool.and_eq_true, Bool.not_eq_true', List.isEmpty_eq_false_iff, List.all_eq_true]
    exact ⟨hnonempty, hparts⟩

/-- A text the address parser takes: the local part and the domain between white space. -/
def AddressText (d : Bytes) (t : List Char) : Prop :=
  ∃ l r, t = l ++ '@' :: r ∧ LocalPart (utf8 (trim l)) ∧ DomainOf (utf8 (trim r)) d

theorem clean_trim {t : List Char} (h : Clean (utf8 t)) : Clean (utf8 (trim t)) := by
  obtain ⟨w, w', ht, -, -⟩ := trim_decomp t
  apply h.mono
  conv_rhs => rw [ht]
  intro b hb
  simp [hb]

theorem clean_of_append {l r : List Char} {c : Char} (h : Clean (utf8 (l ++ c :: r))) : Clean (utf8 l) ∧ Clean (utf8 r) := by
  constructor <;> apply h.mono <;> intro b hb <;> simp [hb]

theorem utf8_at (l r : List Char) : utf8 (l ++ '@' :: r) = utf8 l ++ AT :: utf8 r := by
  rw [utf8_append, utf8_cons]; rfl

theorem DomainOf.level {dom d : Bytes} (h : DomainOf dom d) : Level dom :=
  Level.of_forall fun b hb => level_of_domain (h.chars b hb)

/-- The scan for brackets passes an address. -/
theorem AddressText.angleScan {d : Bytes} {t : List Char} (h : AddressText d t) (start stop : Option Nat) (i : Nat) (r : Bytes) :
    angleScan ⟨false, false, start, stop⟩ i (utf8 t ++ r) =
      DkimLite.angleScan ⟨false, false, start, stop⟩ (i + (utf8 t).length) r := by
  obtain ⟨l, r', rfl, hlocal, hdomain⟩ := h
  have hat : ∀ j v, DkimLite.angleScan ⟨false, false, start, stop⟩ j (AT :: v) =
      DkimLite.angleScan ⟨false, false, start, stop⟩ (j + 1) v := by
    intro j v
    simp [DkimLite.angleScan, angleByte, AT, DQUOTE, LANGLE, RANGLE, COMMA, SEMICOLON]
  rw [utf8_at, List.append_assoc, List.cons_append, (level_of_trim hlocal.level).angleScan, hat,
    (level_of_trim hdomain.level).angleScan]
  congr 1
  simp
  omega

/-- **The address parser returns the domain of an address.** -/
theorem AddressText.read {d : Bytes} {t : List Char} (h : AddressText d t) (hclean : Clean (utf8 t)) :
    fromAddress false false t = .ok (some d) := by
  obtain ⟨l, r, rfl, hlocal, hdomain⟩ := h
  obtain ⟨hl, -⟩ := clean_of_append hclean
  have hat : DkimLite.atScan ⟨false, false, none⟩ (utf8 l).length (AT :: utf8 r) =
      DkimLite.atScan ⟨false, false, some (utf8 l).length⟩ ((utf8 l).length + 1) (utf8 r) := by
    simp [DkimLite.atScan, atByte, AT, DQUOTE]
  have hscan : DkimLite.atScan ⟨false, false, none⟩ 0 (utf8 (l ++ '@' :: r)) =
      some ⟨false, false, some (utf8 l).length⟩ := by
    have hrest := (level_of_trim hdomain.level).atScan (some (utf8 l).length) ((utf8 l).length + 1) []
    rw [List.append_nil, DkimLite.atScan] at hrest
    rw [utf8_at, (level_of_trim hlocal.level).atScan, Nat.zero_add, hat, hrest]
  have hdot := utf8_trimEndMatches (b := DOT) (by decide) (trim r)
  rw [show asciiChar DOT = '.' from rfl] at hdot
  have hto := strTo_char l r '@'
  have hfrom := strFrom_char (b := AT) (by decide) l r
  rw [show asciiChar AT = '@' from rfl] at hfrom
  have hbytes : ∀ b ∈ utf8 (trimEndMatches '.' (trim r)), isDomainByte b = true := by
    intro b hb
    rw [hdot] at hb
    exact hdomain.chars b ((List.rdropWhile_prefix _ _).subset hb)
  have hne : trimEndMatches '.' (trim r) ≠ [] := by
    intro h
    rw [h, utf8_nil] at hdot
    apply hdomain.ne_nil
    rw [hdomain.returned, ← hdot, lower_nil]
  have hall : (utf8 (trimEndMatches '.' (trim r))).all isDomainByte = true := List.all_eq_true.2 hbytes
  simp only [fromAddress, hscan, hto, hfrom, Exec.ok_bind, localPart_complete hlocal (clean_trim hl), Exec.pure_eq,
    Bool.not_true, Bool.false_eq_true, if_false, hall, Bool.or_false, List.isEmpty_eq_false_iff.2 hne]
  rw [hdomain.returned, hdot]

/-! ## Trimming a text around a character -/

theorem dropWhile_char {p : Char → Bool} {c : Char} (hc : p c = false) (l r : List Char) :
    (l ++ c :: r).dropWhile p = l.dropWhile p ++ c :: r := by
  induction l with
  | nil => rw [List.nil_append, List.dropWhile_cons_of_neg (by simp [hc])]; rfl
  | cons a l ih =>
    by_cases ha : p a = true
    · rw [List.cons_append, List.dropWhile_cons_of_pos ha, List.dropWhile_cons_of_pos ha, ih]
    · rw [List.cons_append, List.dropWhile_cons_of_neg ha, List.dropWhile_cons_of_neg ha, List.cons_append]

theorem rdropWhile_char {p : Char → Bool} {c : Char} (hc : p c = false) (l r : List Char) :
    (l ++ c :: r).rdropWhile p = l ++ c :: r.rdropWhile p := by
  induction r using List.reverseRecOn with
  | nil => rw [List.rdropWhile_concat_neg _ _ _ (by simp [hc])]; rfl
  | append_singleton r a ih =>
    rw [← List.cons_append, ← List.append_assoc, List.rdropWhile_concat, List.rdropWhile_concat, ih]
    split <;> simp

theorem trim_char {c : Char} (hc : isWhitespace c = false) (l r : List Char) :
    trim (l ++ c :: r) = l.dropWhile isWhitespace ++ c :: r.rdropWhile isWhitespace := by
  rw [trim, dropWhile_char hc, rdropWhile_char hc]

theorem trim_dropWhile (l : List Char) : trim (l.dropWhile isWhitespace) = trim l := by
  rw [trim, trim, List.dropWhile_idempotent]

/-- The two ends may be trimmed in either order. -/
theorem dropWhile_rdropWhile (p : Char → Bool) (l : List Char) :
    (l.rdropWhile p).dropWhile p = (l.dropWhile p).rdropWhile p := by
  induction l using List.reverseRecOn with
  | nil => rfl
  | append_singleton l a ih =>
    by_cases ha : p a = true
    · rw [List.rdropWhile_concat_pos _ _ _ ha, ih, List.dropWhile_append]
      split
      · rename_i hall
        rw [List.dropWhile_cons_of_pos ha, List.dropWhile_nil, List.isEmpty_iff.1 hall]
      · rw [List.rdropWhile_concat_pos _ _ _ ha]
    · rw [List.rdropWhile_concat_neg _ _ _ ha, dropWhile_char (by simpa using ha),
        rdropWhile_char (by simpa using ha), List.rdropWhile_nil]

theorem trim_rdropWhile (r : List Char) : trim (r.rdropWhile isWhitespace) = trim r := by
  rw [trim, trim, dropWhile_rdropWhile, List.rdropWhile_idempotent]

theorem AddressText.trim {d : Bytes} {t : List Char} (h : AddressText d t) : AddressText d (trim t) := by
  obtain ⟨l, r, rfl, hlocal, hdomain⟩ := h
  refine ⟨_, _, trim_char (by decide) l r, ?_, ?_⟩
  · rwa [trim_dropWhile]
  · rwa [trim_rdropWhile]

/-! ## Mailboxes -/

/-- A text the rest of `from_domain` takes. -/
inductive MailboxText (d : Bytes) : List Char → Prop
  | bare {t : List Char} : AddressText d t → MailboxText d t
  | angle {l m r : List Char} : displayName (utf8 l) = true → AddressText d (trim m) → trim r = [] →
      MailboxText d (l ++ '<' :: (m ++ '>' :: r))

theorem fromText_bare {d : Bytes} {t : List Char} (h : AddressText d t) (hclean : Clean (utf8 t)) :
    fromText false false t = .ok (some d) := by
  have hscan := h.angleScan none none 0 []
  rw [List.append_nil, angleScan] at hscan
  simp only [fromText, hscan]
  exact h.read hclean

/-- **A text with an address in brackets is read if its phrase is a display name.** -/
theorem fromText_angle {d : Bytes} {l m r : List Char} (hl : Level (utf8 l)) (hm : AddressText d (trim m))
    (hr : trim r = []) (hclean : Clean (utf8 m)) : fromText false false (l ++ '<' :: (m ++ '>' :: r)) =
      .ok (if displayName (utf8 l) then some d else none) := by
  obtain ⟨w, w', hdec, hw, hw'⟩ := trim_decomp m
  have hopen : ∀ j v, angleScan ⟨false, false, none, none⟩ j (LANGLE :: v) = angleScan ⟨false, false, some j, none⟩ (j + 1) v := by
    intro j v
    simp [angleScan, angleByte, LANGLE, DQUOTE]
  have hclose : ∀ k j v, angleScan ⟨false, false, some k, none⟩ j (RANGLE :: v) =
      angleScan ⟨false, false, some k, some j⟩ (j + 1) v := by
    intro k j v
    simp [angleScan, angleByte, LANGLE, RANGLE, DQUOTE]
  have hmid : ∀ k j v, angleScan ⟨false, false, some k, none⟩ j (utf8 m ++ v) =
      angleScan ⟨false, false, some k, none⟩ (j + (utf8 m).length) v := by
    intro k j v
    have hlen : (utf8 m).length = (utf8 w).length + ((utf8 (trim m)).length + (utf8 w').length) := by
      conv_lhs => rw [hdec]
      simp
    rw [hlen]
    conv_lhs => rw [hdec]
    rw [utf8_append, utf8_append, List.append_assoc, List.append_assoc, (level_utf8_white hw).angleScan, hm.angleScan,
      (level_utf8_white hw').angleScan, Nat.add_assoc, Nat.add_assoc]
  have hlast : Level (utf8 r) := level_of_trim (by rw [hr]; exact .nil)
  have hscan : angleScan ⟨false, false, none, none⟩ 0 (utf8 (l ++ '<' :: (m ++ '>' :: r))) =
      some ⟨false, false, some (utf8 l).length, some ((utf8 l).length + 1 + (utf8 m).length)⟩ := by
    have hrest := hlast.angleScan (some (utf8 l).length) (some ((utf8 l).length + 1 + (utf8 m).length))
      ((utf8 l).length + 1 + (utf8 m).length + 1) []
    rw [List.append_nil, angleScan] at hrest
    rw [utf8_angle, hl.angleScan, Nat.zero_add, hopen, hmid, hclose, hrest]
  obtain ⟨hphrase, haddress, htail⟩ := angle_slices l m r
  simp only [fromText, hscan, hphrase, haddress, htail, Exec.ok_bind, Exec.pure_eq, hr, List.isEmpty_nil, Bool.not_true,
    Bool.false_eq_true, if_false, hm.read (clean_trim hclean)]
  cases displayName (utf8 l) <;> rfl

theorem fromText_accepts {escaped quoted : Bool} {t : List Char} {d : Bytes} (h : fromText escaped quoted t = .ok (some d)) :
    MailboxText d t := by
  have haddress : ∀ {escaped quoted : Bool} {a : List Char}, fromAddress escaped quoted a = .ok (some d) → AddressText d a := by
    intro escaped quoted a ha
    obtain ⟨o, ho, hacc⟩ := fromAddress_spec escaped quoted a
    exact hacc d (Exec.ok.inj (ho.symm.trans ha))
  unfold fromText at h
  cases hscan : angleScan ⟨escaped, quoted, none, none⟩ 0 (utf8 t) with
  | none => rw [hscan] at h; cases h
  | some scan =>
    have hok := angleScan_ok [] (utf8 t) _ ⟨by simp, by simp⟩ hscan
    rw [hscan] at h
    simp only at h
    cases hstart : scan.start with
    | none =>
      cases hstop : scan.stop with
      | none => exact .bare (haddress (by rwa [hstart, hstop] at h))
      | some j => rw [hstart, hstop] at h; cases h
    | some k =>
      cases hstop : scan.stop with
      | none => rw [hstart, hstop] at h; cases h
      | some j =>
        obtain ⟨hj, k', hk', hkj⟩ := hok.stop j hstop
        obtain rfl : k = k' := by rw [hstart] at hk'; exact Option.some.inj hk'
        obtain ⟨l, m, r, rfl, hl, hm, hr⟩ := angle_cut (hok.start k hstart).2 hj hkj
        rw [hstart, hstop] at h
        simp only [hl, hm, hr, Exec.ok_bind, Exec.pure_eq] at h
        cases hname : displayName (utf8 l) with
        | false => rw [hname] at h; cases h
        | true =>
          by_cases hrest : trim r = []
          · rw [hname, hrest] at h
            exact .angle hname (haddress h) hrest
          · simp [hname, hrest] at h

/-- **What the rest of `from_domain` accepts.** -/
theorem fromText_iff {t : List Char} (hclean : Clean (utf8 t)) {d : Bytes} :
    fromText false false t = .ok (some d) ↔ MailboxText d t := by
  constructor
  · exact fromText_accepts
  · rintro (h | ⟨hname, hm, hr⟩)
    · exact fromText_bare h hclean
    · obtain ⟨hl, hrest⟩ := clean_of_append hclean
      obtain ⟨hm', -⟩ := clean_of_append hrest
      have hphrase : Phrase (utf8 _) := displayLoop_phrase _ false false hl (by simp) hname
      rw [fromText_angle hphrase.level hm hr hm', hname, if_pos rfl]

theorem mem_uncomment : ∀ {s : Lex} {v : Bytes} {b : UInt8}, b ∈ uncomment s v → b ∈ v ∨ b = SP
  | _, [], _, h => by cases h
  | s, a :: v, b, h => by
    rw [uncomment, List.mem_append] at h
    rcases h with h | h
    · unfold Lex.emit at h
      split at h
      · cases h
      · split at h
        · exact Or.inr (List.mem_singleton.1 h)
        · exact Or.inl (by rw [List.mem_singleton.1 h]; exact List.mem_cons_self)
    · rcases mem_uncomment h with h | h
      · exact Or.inl (List.mem_cons_of_mem _ h)
      · exact Or.inr h

theorem clean_uncomment {value : Bytes} (h : unfoldable value = true) (s : Lex) : Clean (uncomment s (removeFolds value)) := by
  intro b hb hc
  rcases mem_uncomment hb with hb | rfl
  · exact removeFolds_no_control h b hb hc
  · cases hc

/-- **What `from_domain` accepts**: a value whose line breaks are folds, whose comments and quoted
strings are closed, and that is a mailbox once both are undone. -/
theorem fromDomain_iff {value d : Bytes} : fromDomain value = .ok (some d) ↔
    unfoldable value = true ∧ lexRun .top (removeFolds value) = some .top ∧
      ∃ s, uncomment .top (removeFolds value) = utf8 s ∧ MailboxText d (trim s) := by
  rw [fromDomain_eq]
  constructor
  · intro h
    split at h
    swap
    · cases h
    rename_i hread
    cases hutf : fromUtf8 (uncomment .top (removeFolds value)) with
    | none => rw [hutf] at h; cases h
    | some s =>
      rw [hutf] at h
      exact ⟨hread.1, hread.2, s, fromUtf8_eq_some.1 hutf, fromText_accepts h⟩
  · rintro ⟨hun, hrun, s, hs, hmailbox⟩
    have hclean := clean_uncomment hun .top
    rw [hs] at hclean
    rw [if_pos ⟨hun, hrun⟩, hs, fromUtf8_utf8]
    exact (fromText_iff (clean_trim hclean)).2 hmailbox

end DkimLite
