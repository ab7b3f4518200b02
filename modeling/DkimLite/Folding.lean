import DkimLite.ConfigLimits
import DkimLite.Replies

/-!
# Folding the signature value

`fold_signature` (`src/dkim.rs:427-448`) fills lines with the tokens of a text. `foldLines` says so
line by line: the line in progress takes the next token if that fits into 72 columns, and
otherwise a new line starts with a tab and the token. `foldTokens_lines` is its agreement with
the code, and what is proved of folded texts is proved of those lines.

`folding_lossless` puts it together, for any text and for the field that is sent.
-/

namespace DkimLite
open Rust Text

/-! ## Lines -/

/-- The lines the tokens to come are filled into; `line` is the one in progress. -/
def foldLines (line : Bytes) : List Bytes → List Bytes
  | [] => [line]
  | t :: ts =>
    if foldLimit < line.length + (t.length + 1) then line :: foldLines (TAB :: t) ts else foldLines (line ++ SP :: t) ts

theorem foldLines_ne_nil (line : Bytes) (ts : List Bytes) : foldLines line ts ≠ [] := by
  fun_induction foldLines line ts with
  | case1 => simp
  | case2 => simp
  | case3 _ _ _ _ ih => exact ih

/-- **The code fills lines.** -/
theorem foldTokens_lines (ts : List Bytes) {line : Bytes} (hline : line ≠ []) (out : Bytes) :
    (ts.foldl foldToken (out ++ line, line.length)).1 = out ++ CRLF.intercalate (foldLines line ts) := by
  induction ts generalizing line out with
  | nil => rw [foldLines, List.intercalate_singleton]; rfl
  | cons t ts ih =>
    have hpos : 0 < line.length := List.length_pos_iff.2 hline
    have hcol : line.length ≠ 0 := by omega
    rw [List.foldl_cons, foldLines]
    by_cases hlim : foldLimit < line.length + (t.length + 1)
    · have hstep : foldToken (out ++ line, line.length) t = (out ++ line ++ CRLF ++ TAB :: t, (TAB :: t).length) := by
        simp [foldToken, hcol, hpos, hlim, CRLF]
        omega
      rw [hstep, ih (by simp), if_pos hlim, List.intercalate_cons_of_ne_nil (foldLines_ne_nil _ _)]
      simp
    · have hstep : foldToken (out ++ line, line.length) t = (out ++ (line ++ SP :: t), (line ++ SP :: t).length) := by
        simp [foldToken, hcol, hpos, hlim]
        omega
      rw [hstep, ih (by simp), if_neg hlim]

/-- A text that does not start with a space, as the lines it is folded into. -/
theorem foldSignature_lines {s : Bytes} (hs : s.head? ≠ some SP) :
    ∃ t ts, s.splitOn SP = t :: ts ∧ foldSignature s = CRLF.intercalate (foldLines t ts) := by
  cases hsplit : s.splitOn SP with
  | nil => exact absurd hsplit (List.splitOn_ne_nil SP s)
  | cons t ts =>
    refine ⟨t, ts, rfl, ?_⟩
    have hcat : [SP].intercalate (t :: ts) = s := by rw [← hsplit, List.intercalate_splitOn]
    rw [foldSignature, hsplit]
    by_cases ht : t = []
    · -- only the empty text has an empty first token
      subst ht
      cases ts with
      | nil => rfl
      | cons u ts =>
        rw [List.intercalate_cons_cons] at hcat
        exact absurd (by rw [← hcat]; rfl) hs
    · have hstep : foldToken ([], 0) t = ([] ++ t, t.length) := by simp [foldToken]
      rw [List.foldl_cons, hstep, foldTokens_lines ts ht, List.nil_append]

/-! ## What the lines are -/

section
variable {line : Bytes} {ts : List Bytes}

/-- Lines hold what the tokens hold, with spaces and tabs. -/
theorem mem_foldLines {b : UInt8} (hsp : b ≠ SP) (htab : b ≠ TAB) (hline : b ∉ line) (hts : ∀ t ∈ ts, b ∉ t) :
    ∀ l ∈ foldLines line ts, b ∉ l := by
  fun_induction foldLines line ts with
  | case1 => simpa using hline
  | case2 line t ts _ ih =>
    intro l hl
    rcases List.mem_cons.1 hl with rfl | hl
    · exact hline
    · exact ih (by simpa [htab] using hts t (by simp)) (fun u hu => hts u (by simp [hu])) l hl
  | case3 line t ts _ ih =>
    exact ih (by simpa [hline, hsp] using hts t (by simp)) fun u hu => hts u (by simp [hu])

/-- A line of one token, after the tab of a fold or at the start. -/
def OneToken (ts : List Bytes) (l : Bytes) : Prop := ∃ t ∈ ts, l = t ∨ l = TAB :: t

/-- **Width.** -/
theorem foldLines_width {us : List Bytes} (hline : line.length ≤ foldLimit ∨ OneToken us line) (hts : ts ⊆ us) :
    ∀ l ∈ foldLines line ts, l.length ≤ foldLimit ∨ OneToken us l := by
  fun_induction foldLines line ts with
  | case1 => simpa using hline
  | case2 line t ts _ ih =>
    intro l hl
    rcases List.mem_cons.1 hl with rfl | hl
    · exact hline
    · exact ih (Or.inr ⟨t, hts (by simp), Or.inr rfl⟩) (fun u hu => hts (by simp [hu])) l hl
  | case3 line t ts hfits ih =>
    refine ih (Or.inl ?_) fun u hu => hts (by simp [hu])
    simp only [List.length_append, List.length_cons]
    omega

/-- The first token of a line that follows a break. -/
def firstToken (l : Bytes) : Bytes := l.tail.takeWhile (· != SP)

/-- `l'` follows `l` only because its first token did not fit. -/
def BreakNeeded (l l' : Bytes) : Prop := l'.head? = some TAB ∧ foldLimit < l.length + (1 + (firstToken l').length)

/-- The line in progress stays the start of its line. -/
theorem foldLines_head (line : Bytes) (ts : List Bytes) :
    ∃ w ls, foldLines line ts = (line ++ w) :: ls ∧ (w = [] ∨ w.head? = some SP) := by
  fun_induction foldLines line ts with
  | case1 line => exact ⟨[], [], by rw [List.append_nil], Or.inl rfl⟩
  | case2 line t ts => exact ⟨[], _, by rw [List.append_nil], Or.inl rfl⟩
  | case3 line t ts _ ih =>
    obtain ⟨w, ls, hlines, -⟩ := ih
    exact ⟨SP :: t ++ w, ls, by rw [hlines, List.append_assoc], Or.inr rfl⟩

theorem firstToken_append {t w : Bytes} (ht : SP ∉ t) (hw : w = [] ∨ w.head? = some SP) : firstToken (TAB :: (t ++ w)) = t := by
  have hall : ∀ b ∈ t, (b != SP) = true := fun b hb => by simpa using fun h : b = SP => ht (h ▸ hb)
  have hnil : w.takeWhile (· != SP) = [] := by
    rcases hw with rfl | hw
    · rfl
    · cases w with
      | nil => rfl
      | cons b w =>
        obtain rfl : b = SP := by simpa using hw
        rfl
  rw [firstToken, List.tail_cons, List.takeWhile_append_of_pos hall, hnil, List.append_nil]

/-- **Breaks.** -/
theorem foldLines_breaks (hts : ∀ t ∈ ts, SP ∉ t) : (foldLines line ts).IsChain BreakNeeded := by
  fun_induction foldLines line ts with
  | case1 => exact .singleton _
  | case2 line t ts hlim ih =>
    have hrest := ih fun u hu => hts u (by simp [hu])
    obtain ⟨w, ls, hlines, hw⟩ := foldLines_head (TAB :: t) ts
    rw [hlines] at hrest ⊢
    refine List.isChain_cons_cons.2 ⟨⟨rfl, ?_⟩, hrest⟩
    rw [List.cons_append, firstToken_append (hts t (by simp)) hw]
    omega
  | case3 line t ts _ ih => exact ih fun u hu => hts u (by simp [hu])

end

/-! ## Unfolding -/

/-- Every CRLF TAB becomes a space. -/
def unfoldSignature : Bytes → Bytes
  | b :: c :: d :: r =>
    if b = CR ∧ c = LF ∧ d = TAB then SP :: unfoldSignature r else b :: unfoldSignature (c :: d :: r)
  | l => l

theorem unfoldSignature_other {b : UInt8} (hb : b ≠ CR) (r : Bytes) : unfoldSignature (b :: r) = b :: unfoldSignature r := by
  match r with
  | [] => rfl
  | [c] => rfl
  | c :: d :: r => simp [unfoldSignature, hb]

theorem unfoldSignature_append {w : Bytes} (hw : CR ∉ w) (l : Bytes) : unfoldSignature (w ++ l) = w ++ unfoldSignature l := by
  induction w with
  | nil => rfl
  | cons b w ih =>
    rw [List.cons_append, unfoldSignature_other (by rintro rfl; simp at hw), ih fun h => hw (by simp [h]), List.cons_append]

/-- **Nothing is lost.** -/
theorem unfold_foldLines {line : Bytes} {ts : List Bytes} (hline : CR ∉ line) (hts : ∀ t ∈ ts, CR ∉ t) :
    unfoldSignature (CRLF.intercalate (foldLines line ts)) = [SP].intercalate (line :: ts) := by
  fun_induction foldLines line ts with
  | case1 line =>
    have := unfoldSignature_append hline []
    rw [List.append_nil] at this
    rw [List.intercalate_singleton, List.intercalate_singleton, this]
    exact List.append_nil _
  | case2 line t ts _ ih =>
    have hrest := ih (by simpa using ⟨by decide, hts t (by simp)⟩) fun u hu => hts u (by simp [hu])
    obtain ⟨w, ls, hlines, -⟩ := foldLines_head (TAB :: t) ts
    -- the line that follows starts with the tab that makes this break one to unfold
    obtain ⟨v, hv⟩ : ∃ v, CRLF.intercalate (foldLines (TAB :: t) ts) = TAB :: v := by
      rw [hlines]
      cases ls with
      | nil => exact ⟨t ++ w, by rw [List.intercalate_singleton, List.cons_append]⟩
      | cons l ls => exact ⟨_, by rw [List.intercalate_cons_cons, List.cons_append, List.cons_append, List.cons_append]⟩
    have hbreak : unfoldSignature (CR :: LF :: TAB :: v) = SP :: unfoldSignature v := by rw [unfoldSignature]; simp
    have hv' : unfoldSignature v = [SP].intercalate (t :: ts) := by
      rw [hv, unfoldSignature_other (by decide)] at hrest
      cases ts with
      | nil => simpa using hrest
      | cons u ts => simpa [List.intercalate_cons_cons] using hrest
    rw [List.intercalate_cons_of_ne_nil (foldLines_ne_nil _ _), hv, List.append_assoc, unfoldSignature_append hline,
      List.intercalate_cons_cons, CRLF, List.cons_append, List.cons_append, List.nil_append, hbreak, hv', List.append_assoc]
    rfl
  | case3 line t ts _ ih =>
    rw [ih (by simpa [hline] using ⟨by decide, hts t (by simp)⟩) fun u hu => hts u (by simp [hu])]
    cases ts with
    | nil => simp
    | cons u ts => simp [List.intercalate_cons_cons]

/-! ## Folded texts -/

/-- A text without line breaks of its own, folded, line by line. -/
theorem splitLines_foldSignature {s : Bytes} (hcr : CR ∉ s) (hlf : LF ∉ s) (hsp : s.head? ≠ some SP) :
    ∃ t ts, s.splitOn SP = t :: ts ∧ (∀ u ∈ t :: ts, SP ∉ u ∧ ∀ b ∈ u, b ∈ s) ∧
      foldSignature s = CRLF.intercalate (foldLines t ts) ∧ (∀ l ∈ foldLines t ts, CR ∉ l ∧ LF ∉ l) ∧
      splitLines (foldSignature s) = foldLines t ts := by
  obtain ⟨t, ts, hsplit, hfold⟩ := foldSignature_lines hsp
  have hmem : ∀ u ∈ t :: ts, SP ∉ u ∧ ∀ b ∈ u, b ∈ s := by
    intro u hu
    rw [← hsplit] at hu
    refine ⟨fun h => by simpa using mem_splitOnP_other hu SP h, fun b hb => ?_⟩
    have hin : b ∈ [SP].intercalate (s.splitOn SP) := mem_intercalate_of_mem hu hb
    rwa [List.intercalate_splitOn] at hin
  have hplain : ∀ l ∈ foldLines t ts, CR ∉ l ∧ LF ∉ l := by
    have hno : ∀ b, b ∉ s → b ∉ t ∧ ∀ u ∈ ts, b ∉ u :=
      fun b hb => ⟨fun h => hb ((hmem t (by simp)).2 b h), fun u hu h => hb ((hmem u (by simp [hu])).2 b h)⟩
    intro l hl
    exact ⟨mem_foldLines (by decide) (by decide) (hno CR hcr).1 (hno CR hcr).2 l hl,
      mem_foldLines (by decide) (by decide) (hno LF hlf).1 (hno LF hlf).2 l hl⟩
  exact ⟨t, ts, hsplit, hmem, hfold, hplain, by rw [hfold, splitLines_intercalate (foldLines_ne_nil t ts) hplain]⟩

/-- The separators chosen make no difference to the canonical form. -/
theorem relaxedValue_foldSignature {s : Bytes} (hcr : CR ∉ s) (hlf : LF ∉ s) (htab : TAB ∉ s) (hsp : s.head? ≠ some SP) :
    relaxedValue (foldSignature s) = relaxedValue s := by
  obtain ⟨t, ts, hsplit, hmem, -⟩ := splitLines_foldSignature hcr hlf hsp
  have hcat : [SP].intercalate (t :: ts) = s := by rw [← hsplit, List.intercalate_splitOn]
  by_cases ht : t = []
  · subst ht
    cases ts with
    | nil =>
      obtain rfl : s = [] := by rw [← hcat]; rfl
      rfl
    | cons u ts =>
      rw [List.intercalate_cons_cons] at hcat
      exact absurd (by rw [← hcat]; rfl) hsp
  · have hother : ∀ u ∈ t :: ts, ∀ b ∈ u, isLwsp b = false := by
      intro u hu b hb
      have hbs := (hmem u hu).2 b hb
      simp only [isLwsp, Bool.or_eq_false_iff, beq_eq_false_iff_ne]
      exact ⟨⟨⟨fun h => (hmem u hu).1 (h ▸ hb), fun h => htab (h ▸ hbs)⟩, fun h => hcr (h ▸ hbs)⟩, fun h => hlf (h ▸ hbs)⟩
    have hfold := foldSignature_joined ht fun u hu => (hmem u hu).1
    have hflat : Joined foldSep (t :: ts) ([SP].intercalate (t :: ts)) := joined_intercalate (Or.inl rfl) (by simp)
    rw [hcat] at hfold hflat
    rw [relaxedValue, relaxedValue, words_joined (fun _ => foldSep_lwsp) hfold hother,
      words_joined (fun _ => foldSep_lwsp) hflat hother]

/-! ## The field that is sent -/

section
variable {Key : Type} {env : Env Key}

theorem length_tagTokens {n : Nat} : ∀ {tags : List Rfc.Tag}, (∀ t ∈ tags, t.1.length + t.2.length + 2 ≤ n) →
    ∀ x ∈ Rfc.tagTokens tags, x.length ≤ n
  | [], _, x, hx => by cases hx
  | [t], h, x, hx => by
    obtain rfl : x = Rfc.tagText t := by simpa [Rfc.tagTokens] using hx
    have := h t (by simp)
    simp only [Rfc.tagText, List.length_append, List.length_cons]
    omega
  | t :: u :: ts, h, x, hx => by
    rcases List.mem_cons.1 hx with rfl | hx
    · have := h t (by simp)
      simp only [Rfc.tagText, List.length_append, List.length_cons, List.length_nil]
      omega
    · exact length_tagTokens (fun y hy => h y (List.mem_cons_of_mem _ hy)) x hx

/-- The longest token is b= with the base64 of 512 bytes. -/
theorem length_token_le (hssl : env.ssl.Encodes) (config : RuntimeConfig Key) (headers : List Header)
    (bodyHash : Digest) (timestamp : UInt64) {signature : Bytes} (hsig : signature.length ≤ 512) :
    ∀ x ∈ Rfc.tagTokens (tagsOf env config headers bodyHash timestamp (env.ssl.base64 signature)), x.length ≤ 700 := by
  have h1 := hssl.base64_length signature
  have h2 := hssl.base64_length bodyHash.toList
  have h3 := length_decimal_le (n := timestamp.toNat) (k := 20) (by omega) (by have := timestamp.toNat_lt; omega)
  have h4 := length_hNamesOf_le headers
  have h5 := config.domain.length_le
  have h6 := config.selector.length_le
  rw [Vector.length_toList] at h2
  have mk : ∀ {n v : Bytes}, n.length ≤ 2 → v.length ≤ 690 → (n, v).1.length + (n, v).2.length + 2 ≤ 700 := by
    intro n v hn hv
    simp only
    omega
  refine length_tagTokens fun t ht => ?_
  simp only [tagsOf, signatureTags, List.mem_cons, List.not_mem_nil, or_false] at ht
  rcases ht with rfl | rfl | rfl | rfl | rfl | rfl | rfl | rfl | rfl
  · exact mk (by decide) (by decide)
  · exact mk (by decide) (by decide)
  · exact mk (by decide) (by decide)
  · exact mk (by decide) (by omega)
  · exact mk (by decide) (by omega)
  · exact mk (by decide) (by omega)
  · exact mk (by decide) (by omega)
  · exact mk (by decide) (by omega)
  · exact mk (by decide) (by omega)

/-- The value before it is folded has neither line breaks nor tabs, and starts with "v=1;". -/
theorem unfoldedValue_plain (hssl : env.ssl.Encodes) (config : RuntimeConfig Key) (headers : List Header)
    (bodyHash : Digest) (timestamp : UInt64) {b : Bytes} (hb : ∀ x ∈ b, isBase64Byte x = true) :
    (∀ x ∈ unsignedOf env config headers bodyHash timestamp ++ b, x = SP ∨ isLwsp x = false) ∧
      (unsignedOf env config headers bodyHash timestamp ++ b).head? ≠ some SP ∧
      (unsignedOf env config headers bodyHash timestamp ++ b).splitOn SP =
        Rfc.tagTokens (tagsOf env config headers bodyHash timestamp b) := by
  have hplain := tagTokens_plain (tagsOf_ok hssl config headers bodyHash timestamp hb)
  have hne : Rfc.tagTokens (tagsOf env config headers bodyHash timestamp b) ≠ [] := Rfc.tagTokens_cons_ne_nil _ _
  refine ⟨fun x hx => ?_, ?_, ?_⟩
  · rw [unsignedOf_tags] at hx
    rcases mem_intercalate hx with rfl | ⟨l, hl, hxl⟩
    · exact Or.inl rfl
    · exact Or.inr ((hplain l hl).2 x hxl)
  · rw [unsignedOf_tags]
    cases htokens : Rfc.tagTokens (tagsOf env config headers bodyHash timestamp b) with
    | nil => exact absurd htokens hne
    | cons t ts =>
      rw [htokens] at hplain
      obtain ⟨ht, hother⟩ := hplain t (by simp)
      obtain ⟨x, t, rfl⟩ := List.exists_cons_of_ne_nil ht
      have hhead : ([SP].intercalate ((x :: t) :: ts)).head? = some x := by
        cases ts with
        | nil => rw [List.intercalate_singleton]; rfl
        | cons u ts => rw [List.intercalate_cons_cons]; rfl
      rw [hhead]
      rintro ⟨⟩
      exact absurd (hother SP (by simp)) (by decide)
  · rw [unsignedOf_tags]
    exact List.splitOn_intercalate SP (fun l hl hm => absurd ((hplain l hl).2 SP hm) (by decide)) hne

/-- Every text, folded. -/
theorem foldSignature_spec {s : Bytes} (hcr : CR ∉ s) (hlf : LF ∉ s) (htab : TAB ∉ s) (hsp : s.head? ≠ some SP) :
    unfoldSignature (foldSignature s) = s ∧
      (∀ l ∈ splitLines (foldSignature s), l.length ≤ foldLimit ∨ OneToken (s.splitOn SP) l) ∧
      (splitLines (foldSignature s)).IsChain BreakNeeded ∧
      ∀ name, canonicalizeHeader name (foldSignature s) = canonicalizeHeader name s := by
  obtain ⟨t, ts, hsplit, hmem, hfold, -, hlines⟩ := splitLines_foldSignature hcr hlf hsp
  have hno : ∀ u ∈ t :: ts, CR ∉ u := fun u hu hm => hcr ((hmem u hu).2 CR hm)
  refine ⟨?_, ?_, ?_, fun name => ?_⟩
  · rw [hfold, unfold_foldLines (hno t (by simp)) fun u hu => hno u (by simp [hu]), ← hsplit, List.intercalate_splitOn]
  · rw [hlines, hsplit]
    exact foldLines_width (Or.inr ⟨t, by simp, Or.inl rfl⟩) (List.subset_cons_self t ts)
  · rw [hlines]
    exact foldLines_breaks fun u hu => (hmem u (by simp [hu])).1
  · rw [canonicalizeHeader_eq, canonicalizeHeader_eq, relaxedField, relaxedField,
      relaxedValue_foldSignature hcr hlf htab hsp]

/-- What stands in front of a text makes its first line longer. -/
theorem splitLines_append {p first : Bytes} {rest : List Bytes} (hp : CR ∉ p ∧ LF ∉ p)
    (hlines : ∀ l ∈ first :: rest, CR ∉ l ∧ LF ∉ l) :
    splitLines (p ++ CRLF.intercalate (first :: rest)) = (p ++ first) :: rest := by
  have hcat : p ++ CRLF.intercalate (first :: rest) = CRLF.intercalate ((p ++ first) :: rest) := by
    cases rest with
    | nil => rw [List.intercalate_singleton, List.intercalate_singleton]
    | cons l ls => simp only [List.intercalate_cons_cons, List.append_assoc]
  rw [hcat, splitLines_intercalate (by simp)]
  intro l hl
  rcases List.mem_cons.1 hl with rfl | hl
  · simpa [hp] using hlines first (by simp)
  · exact hlines l (by simp [hl])

/-- A signature made with a key that `validate_key` accepts has at most 512 bytes. -/
theorem length_signature_le {ssl : OpenSsl Key} {keys : KeyFormat Key} {key : Key} {data sig : Bytes}
    (hkey : validateKey ssl keys key = .ok ()) (hkeys : keys.Documented) (hsigns : keys.Signs env.ssl)
    (hsig : env.ssl.signToVec key data = .ok sig) : sig.length ≤ 512 := by
  obtain ⟨size, hsize, -⟩ := validateKey_size hkey
  have hbits := (validateKey_bits hkeys hkey).2
  rw [hsigns key size data sig hsize hsig, hkeys.size key size hsize]
  omega

/-- The field that is sent, for a configuration whose key was accepted. -/
theorem signature_folded {ssl : OpenSsl Key} {keys : KeyFormat Key} {config : RuntimeConfig Key} {headers : List Header}
    {bodyHash : Digest} {signed : Signed} (hkey : validateKey ssl keys config.key = .ok ()) (hkeys : keys.Documented)
    (hssl : env.ssl.Encodes) (hsigns : keys.Signs env.ssl) (h : sign env config headers bodyHash = .ok signed) :
    (∀ l ∈ splitLines (ascii "DKIM-Signature: " ++ signed.value), l.length ≤ 998) ∧
      ∃ timestamp signature, ∃ unfolded, unfolded = unsignedOf env config headers bodyHash timestamp ++ env.ssl.base64 signature ∧
        signed.value = foldSignature unfolded ∧ unfoldSignature signed.value = unfolded ∧
        ∀ name, canonicalizeHeader name signed.value = canonicalizeHeader name unfolded := by
  rw [sign_eligible (eligible_of_sign h)] at h
  obtain ⟨timestamp, signature, -, -, -, hrsa, hvalue⟩ := signSelected_eq_ok h
  obtain ⟨hother, hsp, htokens⟩ :=
    unfoldedValue_plain hssl config headers bodyHash timestamp (hssl.base64_alphabet signature)
  have hno : ∀ x, isLwsp x = true → x ≠ SP → x ∉ unsignedOf env config headers bodyHash timestamp ++ env.ssl.base64 signature := by
    intro x hx hne hm
    rcases hother x hm with rfl | hfalse
    · exact hne rfl
    · rw [hx] at hfalse; cases hfalse
  have hcr := hno CR (by rfl) (by decide)
  have hlf := hno LF (by rfl) (by decide)
  obtain ⟨hunfold, hwidth, -, hcanon⟩ := foldSignature_spec hcr hlf (hno TAB (by rfl) (by decide)) hsp
  obtain ⟨t, ts, -, -, hfold, hplain, hlines⟩ := splitLines_foldSignature hcr hlf hsp
  rw [← hvalue] at hunfold hwidth hcanon hfold hlines
  refine ⟨?_, timestamp, signature, _, rfl, hvalue, hunfold, hcanon⟩
  have hlong : ∀ l ∈ foldLines t ts, l.length ≤ 701 := by
    rw [hlines, htokens] at hwidth
    intro l hl
    rcases hwidth l hl with hle | ⟨u, hu, hlu⟩
    · exact Nat.le_trans hle (by decide)
    · have hle := length_token_le hssl config headers bodyHash timestamp (length_signature_le hkey hkeys hsigns hrsa) u hu
      rcases hlu with rfl | rfl
      · omega
      · rw [List.length_cons]; omega
  have hname : (ascii "DKIM-Signature: ").length = 16 ∧ CR ∉ ascii "DKIM-Signature: " ∧ LF ∉ ascii "DKIM-Signature: " := by
    decide
  obtain ⟨first, rest, hcons⟩ := List.exists_cons_of_ne_nil (foldLines_ne_nil t ts)
  rw [hcons] at hfold hplain hlong
  rw [hfold, splitLines_append hname.2 hplain]
  intro l hl
  rcases List.mem_cons.1 hl with rfl | hl
  · have := hlong first (by simp)
    rw [List.length_append, hname.1]
    omega
  · have := hlong l (by simp [hl])
    omega

end

/-- **Folding is lossless and bounded.** A text without CR, LF and TAB that does not start with a
space is got back by unfolding; its lines are at most 72 columns long or one token, breaks
stand only where the next token does not fit, and the canonical form is that of the text. So, for a key
that `validate_key` accepts, the lines of the field that is sent have at most 998 octets, and the value
has the canonical form of what was folded. -/
theorem folding_lossless (Key : Type) :
    (∀ s : Bytes, CR ∉ s → LF ∉ s → TAB ∉ s → s.head? ≠ some SP →
      unfoldSignature (foldSignature s) = s ∧
        (∀ l ∈ splitLines (foldSignature s), l.length ≤ 72 ∨ OneToken (s.splitOn SP) l) ∧
        (splitLines (foldSignature s)).IsChain BreakNeeded ∧
        ∀ name, canonicalizeHeader name (foldSignature s) = canonicalizeHeader name s) ∧
      ∀ (ssl : OpenSsl Key) (keys : KeyFormat Key) (env : Env Key) (config : RuntimeConfig Key) (headers : List Header)
        (bodyHash : Digest) (signed : Signed), validateKey ssl keys config.key = .ok () → keys.Documented →
        env.ssl.Encodes → keys.Signs env.ssl → sign env config headers bodyHash = .ok signed →
          (∀ l ∈ splitLines (ascii "DKIM-Signature: " ++ signed.value), l.length ≤ 998) ∧
          ∃ timestamp signature, ∃ unfolded,
            unfolded = unsignedOf env config headers bodyHash timestamp ++ env.ssl.base64 signature ∧
            signed.value = foldSignature unfolded ∧ unfoldSignature signed.value = unfolded ∧
            ∀ name, canonicalizeHeader name signed.value = canonicalizeHeader name unfolded :=
  ⟨fun _ hcr hlf htab hsp => foldSignature_spec hcr hlf htab hsp,
    fun _ _ _ _ _ _ _ hkey hkeys hssl hsigns h => signature_folded hkey hkeys hssl hsigns h⟩

/-- A text of two words, and the signature of a message with one From field, with a key of 2048 bits. -/
theorem folding_lossless_one_field : unfoldSignature (foldSignature (ascii "v=1; a=rsa-sha256;")) = ascii "v=1; a=rsa-sha256;" ∧
    ∃ signed, sign exampleEnv exampleConfig [exampleFrom] emptyDigest = .ok signed ∧
      ∀ l ∈ splitLines (ascii "DKIM-Signature: " ++ signed.value), l.length ≤ 998 := by
  obtain ⟨signed, h, -⟩ := Exec.okAnd_eq_true.1
    (by decide +kernel : (sign exampleEnv exampleConfig [exampleFrom] emptyDigest).okAnd (fun _ => true) = true)
  have hsigns : (exampleKeys 2048).Signs exampleEnv.ssl := by
    rintro _ _ _ _ ⟨⟩ ⟨⟩
    rw [List.length_replicate]
    rfl
  refine ⟨((folding_lossless Unit).1 _ (by decide) (by decide) (by decide) (by decide)).1, signed, h, ?_⟩
  exact ((folding_lossless Unit).2 exampleSsl (exampleKeys 2048) exampleEnv exampleConfig [exampleFrom] emptyDigest signed
    (by decide +kernel) (exampleKeys_documented (by omega)) exampleSsl_documented.toEncodes hsigns h).1

end DkimLite
