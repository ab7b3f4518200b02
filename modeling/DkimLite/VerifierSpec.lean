import DkimLite.Sign
import DkimLite.Verifier

/-!
# A signature made by `sign` verifies

`sign_verifies`: whenever `sign` returns, the value it returns is a tag list with each of its
nine tags once, and a verifier that is run on the same fields, with the new field inserted
anywhere, hashes the bytes the signer hashed.

The verifier that is run on the fields as they stand treats every CR and LF as white space, as
`canonicalize_header` does. For the literal relaxed canonicalization the fields have to be
ones it is defined on: every line break of a signed field starts a fold (`foldsOnly`), be it a
CRLF or the bare LF with which the MTA hands over a folded value and which is a CRLF on the wire
(`onWire`). `bare_cr_differs` is a value that is not of this kind.
-/

namespace DkimLite
open Rust Text Rfc

/-! ## Folds -/

/-- Every CR belongs to a CRLF, and a space or tab follows every LF. -/
def foldsOnly : Bytes → Bool
  | [] => true
  | b :: r =>
    if b = CR then
      match r with
      | c :: d :: r' => c == LF && isWsp d && foldsOnly (d :: r')
      | _ => false
    else if b = LF then
      match r with
      | d :: r' => isWsp d && foldsOnly (d :: r')
      | [] => false
    else foldsOnly r

/-- A value as it stands in the message: a bare LF is a CRLF there. -/
def onWire : Bytes → Bytes
  | [] => []
  | [b] => if b = LF then CRLF else [b]
  | b :: c :: r =>
    if b = CR ∧ c = LF then CR :: LF :: onWire r
    else if b = LF then CR :: LF :: onWire (c :: r)
    else b :: onWire (c :: r)

theorem onWire_other {b : UInt8} (hcr : b ≠ CR) (hlf : b ≠ LF) (r : Bytes) : onWire (b :: r) = b :: onWire r := by
  cases r <;> simp [onWire, hcr, hlf]

theorem onWire_crlf (r : Bytes) : onWire (CR :: LF :: r) = CR :: LF :: onWire r := by simp [onWire]

theorem onWire_lf {b : UInt8} (r : Bytes) : onWire (LF :: b :: r) = CR :: LF :: onWire (b :: r) := by
  simp [onWire, show LF ≠ CR by decide]

theorem isWsp_ne {b : UInt8} (h : isWsp b = true) : b ≠ CR ∧ b ≠ LF := by
  constructor <;> rintro rfl <;> revert h <;> decide

theorem isLwsp_of_isWsp {b : UInt8} (h : isWsp b = true) : isLwsp b = true := by
  simp only [isWsp, isLwsp, Bool.or_eq_true] at h ⊢
  exact Or.inl (Or.inl h)

/-- A fold in front of a space or tab goes away on the wire. -/
theorem removeFolds_onWire_fold {d : UInt8} (hd : isWsp d = true) (r : Bytes) :
    removeFolds (onWire (d :: r)) = d :: removeFolds (onWire r) ∧
      removeFolds (CR :: LF :: onWire (d :: r)) = removeFolds (onWire (d :: r)) := by
  obtain ⟨hcr, hlf⟩ := isWsp_ne hd
  rw [onWire_other hcr hlf]
  exact ⟨removeFolds_other hcr _, removeFolds_fold hd _⟩

theorem isLwsp_eq_false {b : UInt8} (hb : isWsp b = false) (hcr : b ≠ CR) (hlf : b ≠ LF) : isLwsp b = false := by
  simp only [isWsp, Bool.or_eq_false_iff] at hb
  simp only [isLwsp, hb.1, hb.2, beq_false_of_ne hcr, beq_false_of_ne hlf]
  rfl

theorem squeeze_onWire : ∀ {v : Bytes}, foldsOnly v = true → ∀ pend,
    squeeze isLwsp SP pend v = squeeze isWsp SP pend (removeFolds (onWire v)) := by
  intro v
  fun_induction foldsOnly v with
  | case1 => intro _ _; rfl
  | case2 c d r ih =>
    intro h pend
    simp only [Bool.and_eq_true, beq_iff_eq] at h
    obtain ⟨⟨rfl, hd⟩, hr⟩ := h
    obtain ⟨h1, h2⟩ := removeFolds_onWire_fold hd r
    rw [squeeze_sep (by rfl), squeeze_sep (by rfl), ih hr, onWire_crlf, h2, h1, squeeze_sep hd, squeeze_sep hd]
  | case3 => intro h; cases h
  | case4 d r _ ih =>
    intro h pend
    simp only [Bool.and_eq_true] at h
    obtain ⟨h1, h2⟩ := removeFolds_onWire_fold h.1 r
    rw [squeeze_sep (by rfl), ih h.2, onWire_lf, h2, h1, squeeze_sep h.1, squeeze_sep h.1]
  | case5 => intro h; cases h
  | case6 b r hcr hlf ih =>
    intro h pend
    rw [onWire_other hcr hlf, removeFolds_other hcr]
    cases hb : isWsp b with
    | true => rw [squeeze_sep hb, squeeze_sep (isLwsp_of_isWsp hb), ih h]
    | false =>
      have hb' := isLwsp_eq_false hb hcr hlf
      rw [squeeze_other hb, squeeze_other hb', ih h]

theorem squeeze_dropWhile_onWire : ∀ {v : Bytes}, foldsOnly v = true →
    squeeze isLwsp SP false (v.dropWhile isLwsp) =
      squeeze isWsp SP false ((removeFolds (onWire v)).dropWhile isWsp) := by
  intro v
  fun_induction foldsOnly v with
  | case1 => intro _; rfl
  | case2 c d r ih =>
    intro h
    simp only [Bool.and_eq_true, beq_iff_eq] at h
    obtain ⟨⟨rfl, hd⟩, hr⟩ := h
    rw [List.dropWhile_cons_of_pos (by rfl), List.dropWhile_cons_of_pos (by rfl), ih hr, onWire_crlf,
      (removeFolds_onWire_fold hd r).2]
  | case3 => intro h; cases h
  | case4 d r _ ih =>
    intro h
    simp only [Bool.and_eq_true] at h
    rw [List.dropWhile_cons_of_pos (by rfl), ih h.2, onWire_lf, (removeFolds_onWire_fold h.1 r).2]
  | case5 => intro h; cases h
  | case6 b r hcr hlf ih =>
    intro h
    cases hb : isWsp b with
    | true =>
      rw [onWire_other hcr hlf, removeFolds_other hcr, List.dropWhile_cons_of_pos hb,
        List.dropWhile_cons_of_pos (isLwsp_of_isWsp hb), ih h]
    | false =>
      have hkeep : foldsOnly (b :: r) = true := by rw [foldsOnly.eq_def]; simp only [if_neg hcr, if_neg hlf]; exact h
      have hb' := isLwsp_eq_false hb hcr hlf
      rw [List.dropWhile_cons_of_neg (by simp [hb']), squeeze_onWire hkeep, onWire_other hcr hlf,
        removeFolds_other hcr, List.dropWhile_cons_of_neg (by simp [hb])]

theorem rfcRelaxedValue_eq (v : Bytes) :
    rfcRelaxedValue v = squeeze isWsp SP false ((removeFolds v).dropWhile isWsp) := by
  rw [rfcRelaxedValue, dropWhile_collapse (by rfl) (fun _ h => h),
    (rdropWhile_collapse (by rfl) (fun _ h => h) _).1]

/-- **On values with folds only, the canonical form of the code is the literal one.** -/
theorem relaxedField_eq_rfc {value : Bytes} (h : foldsOnly value = true) (name : Bytes) :
    relaxedField name value = rfcRelaxedField name (onWire value) := by
  rw [relaxedField, rfcRelaxedField, rfcRelaxedValue_eq, relaxedValue, ← squeeze_dropWhile,
    squeeze_dropWhile_onWire h]

/-! ## Folding the signature -/

/-- Tokens written on a line that has begun. -/
theorem foldTokens_joined : ∀ (ts : List Bytes) (out : Bytes) (column : Nat), 0 < column →
    ∃ w, (ts.foldl foldToken (out, column)).1 = out ++ w ∧ ∀ t, Joined foldSep (t :: ts) (t ++ w)
  | [], out, _, _ => ⟨[], by simp, fun t => by rw [List.append_nil]; exact .one t⟩
  | t' :: ts, out, column, hpos => by
    obtain ⟨s, hs, column', hcol, hstep⟩ : ∃ s, foldSep s ∧ ∃ column', 0 < column' ∧
        foldToken (out, column) t' = (out ++ s ++ t', column') := by
      have hcol : column ≠ 0 := by omega
      by_cases hlim : 0 < column ∧ foldLimit < column + (t'.length + 1)
      · exact ⟨[CR, LF, TAB], Or.inr rfl, 1 + t'.length, by omega, by simp only [foldToken, if_neg hcol, if_pos hlim]⟩
      · exact ⟨[SP], Or.inl rfl, column + 1 + t'.length, by omega,
          by simp only [foldToken, if_neg hcol, if_neg hlim, if_pos hpos]⟩
    obtain ⟨w, hw, hjoin⟩ := foldTokens_joined ts (out ++ s ++ t') column' hcol
    refine ⟨s ++ (t' ++ w), by rw [List.foldl_cons, hstep, hw]; simp, fun t => ?_⟩
    rw [← List.append_assoc]
    exact .cons t hs (hjoin t')

/-- **`fold_signature` only chooses separators**, unless the text starts with a space. -/
theorem foldSignature_joined {t : Bytes} {ts : List Bytes} (ht : t ≠ []) (hts : ∀ x ∈ t :: ts, SP ∉ x) :
    Joined foldSep (t :: ts) (foldSignature ([SP].intercalate (t :: ts))) := by
  rw [foldSignature, List.splitOn_intercalate SP hts (by simp)]
  have hlen : 0 < t.length := List.length_pos_iff.2 ht
  have hstep : foldToken ([], 0) t = (t, t.length) := by simp [foldToken]
  obtain ⟨w, hw, hjoin⟩ := foldTokens_joined ts t t.length hlen
  rw [List.foldl_cons, hstep, hw]
  exact hjoin t

theorem onWire_append {w : Bytes} (hcr : CR ∉ w) (hlf : LF ∉ w) (l : Bytes) : onWire (w ++ l) = w ++ onWire l := by
  induction w with
  | nil => rfl
  | cons b w ih =>
    rw [List.cons_append, onWire_other (by rintro rfl; simp at hcr) (by rintro rfl; simp at hlf),
      ih (fun h => hcr (by simp [h])) (fun h => hlf (by simp [h]))]
    rfl

theorem foldsOnly_append {w : Bytes} (hcr : CR ∉ w) (hlf : LF ∉ w) (l : Bytes) : foldsOnly (w ++ l) = foldsOnly l := by
  induction w with
  | nil => rfl
  | cons b w ih =>
    have hb1 : b ≠ CR := by rintro rfl; simp at hcr
    have hb2 : b ≠ LF := by rintro rfl; simp at hlf
    rw [List.cons_append, foldsOnly.eq_def]
    simp only [if_neg hb1, if_neg hb2]
    exact ih (fun h => hcr (by simp [h])) (fun h => hlf (by simp [h]))

/-- A folded text is a legal value, and the wire does not change it. -/
theorem joined_wire {ts : List Bytes} {v : Bytes} (h : Joined foldSep ts v) (ht : ∀ t ∈ ts, CR ∉ t ∧ LF ∉ t) :
    foldsOnly v = true ∧ onWire v = v := by
  induction h with
  | one t =>
    obtain ⟨hcr, hlf⟩ := ht t (by simp)
    have h1 := foldsOnly_append hcr hlf []
    have h2 := onWire_append hcr hlf []
    rw [List.append_nil] at h1 h2
    exact ⟨h1, by rw [h2]; exact List.append_nil t⟩
  | @cons t s v ts hs _ ih =>
    obtain ⟨hcr, hlf⟩ := ht t (by simp)
    obtain ⟨hf, hw⟩ := ih fun x hx => ht x (by simp [hx])
    rw [List.append_assoc, foldsOnly_append hcr hlf, onWire_append hcr hlf]
    rcases hs with rfl | rfl
    · rw [foldsOnly_append (by decide) (by decide), onWire_append (by decide) (by decide), hw]
      exact ⟨hf, by simp⟩
    · refine ⟨?_, ?_⟩
      · have htab := foldsOnly_append (w := [TAB]) (by decide) (by decide) v
        have hstep : foldsOnly ([CR, LF, TAB] ++ v) = foldsOnly ([TAB] ++ v) := rfl
        rw [hstep, htab, hf]
      · have htab := onWire_append (w := [TAB]) (by decide) (by decide) v
        rw [show [CR, LF, TAB] ++ v = CR :: LF :: ([TAB] ++ v) from rfl, onWire_crlf, htab, hw]

/-! ## The tags -/

section
variable {Key : Type}

/-- The tags of a signature with the b= value `b`. -/
def signatureTags (domain selector : Bytes) (timestamp : Nat) (hNames : List Bytes) (bodyHash b : Bytes) : List Tag :=
  [(ascii "v", ascii "1"), (ascii "a", ascii "rsa-sha256"), (ascii "c", ascii "relaxed/relaxed"), (ascii "d", domain),
    (ascii "s", selector), (ascii "t", decimal timestamp), (ascii "h", [COLON].intercalate hNames),
    (ascii "bh", bodyHash), (ascii "b", b)]

theorem unsignedValue_tags (domain selector : Bytes) (timestamp : Nat) (hNames : List Bytes) (bodyHash b : Bytes) :
    unsignedValue domain selector timestamp hNames bodyHash ++ b =
      [SP].intercalate (tagTokens (signatureTags domain selector timestamp hNames bodyHash b)) := by
  have h1 : ascii "v=1; a=rsa-sha256; c=relaxed/relaxed; d=" =
      tagText (ascii "v", ascii "1") ++ [SEMICOLON, SP] ++ tagText (ascii "a", ascii "rsa-sha256") ++ [SEMICOLON, SP] ++
        tagText (ascii "c", ascii "relaxed/relaxed") ++ [SEMICOLON, SP] ++ ascii "d" ++ [EQUALS] := by decide
  have hs : ascii "; s=" = [SEMICOLON, SP] ++ ascii "s" ++ [EQUALS] := by decide
  have ht : ascii "; t=" = [SEMICOLON, SP] ++ ascii "t" ++ [EQUALS] := by decide
  have hh : ascii "; h=" = [SEMICOLON, SP] ++ ascii "h" ++ [EQUALS] := by decide
  have hbh : ascii "; bh=" = [SEMICOLON, SP] ++ ascii "bh" ++ [EQUALS] := by decide
  have hb : ascii "; b=" = [SEMICOLON, SP] ++ ascii "b" ++ [EQUALS] := by decide
  simp only [unsignedValue, signatureTags, tagTokens, h1, hs, ht, hh, hbh, hb, tagText, List.intercalate_cons_cons,
    List.intercalate_singleton, List.append_assoc, List.cons_append, List.nil_append]

theorem isValchar_of_mem_domain (n : DnsName) : ∀ b ∈ n.bytes, isValchar b = true := by
  intro b hb
  have := n.mem b hb
  revert this
  exact forall_uint8 (P := fun b => (isAsciiAlphanumeric b = true ∨ b = 45 ∨ b = 46) → isValchar b = true)
    (by decide +kernel) b

theorem isValchar_of_base64 {b : UInt8} (h : isBase64Byte b = true) : isValchar b = true := by
  revert h
  exact forall_uint8 (P := fun b => isBase64Byte b = true → isValchar b = true) (by decide +kernel) b

theorem isValchar_of_digit {b : UInt8} (h : isAsciiDigit b = true) : isValchar b = true := by
  revert h
  exact forall_uint8 (P := fun b => isAsciiDigit b = true → isValchar b = true) (by decide +kernel) b

/-- Every listed name is one of the table, and they are visible ASCII without a colon. -/
theorem mem_hNamesOf {headers : List Header} {name : Bytes} (h : name ∈ hNamesOf headers) :
    name ∈ signedHeaders ∧ ∀ b ∈ name, isValchar b = true ∧ b ≠ COLON := by
  have hmem : name ∈ signedHeaders := by
    simp only [hNamesOf, List.mem_flatMap, List.mem_append] at h
    obtain ⟨n, hn, h | h⟩ := h
    · split at h <;> simp at h
      exact h ▸ hn
    · split at h <;> simp at h
      subst h
      decide
  have hall : (signedHeaders.all fun n => n.all fun b => isValchar b && b != COLON) = true := by decide
  have hname := List.all_eq_true.1 (List.all_eq_true.1 hall name hmem)
  exact ⟨hmem, fun b hb => by simpa using hname b hb⟩

/-- The tags written for a message. -/
def tagsOf (env : Env Key) (config : RuntimeConfig Key) (headers : List Header) (bodyHash : Digest)
    (timestamp : UInt64) (b : Bytes) : List Tag :=
  signatureTags config.domain.bytes config.selector.bytes timestamp.toNat (hNamesOf headers)
    (env.ssl.base64 bodyHash.toList) b

theorem unsignedOf_tags (env : Env Key) (config : RuntimeConfig Key) (headers : List Header) (bodyHash : Digest)
    (timestamp : UInt64) (b : Bytes) :
    unsignedOf env config headers bodyHash timestamp ++ b =
      [SP].intercalate (tagTokens (tagsOf env config headers bodyHash timestamp b)) :=
  unsignedValue_tags _ _ _ _ _ _

theorem tagsOf_ok {env : Env Key} (hssl : env.ssl.Encodes) (config : RuntimeConfig Key)
    (headers : List Header) (bodyHash : Digest) (timestamp : UInt64) {b : Bytes}
    (hb : ∀ x ∈ b, isBase64Byte x = true) : ∀ t ∈ tagsOf env config headers bodyHash timestamp b, TagOk t := by
  have hh : ∀ x ∈ [COLON].intercalate (hNamesOf headers), isValchar x = true := by
    intro x hx
    rcases mem_intercalate hx with rfl | ⟨n, hn, hxn⟩
    · rfl
    · exact ((mem_hNamesOf hn).2 x hxn).1
  have mk : ∀ {n v : Bytes}, tagNameOk n = true → (∀ x ∈ v, isValchar x = true) → TagOk (n, v) :=
    fun hn hv => ⟨hn, hv⟩
  intro t ht
  simp only [tagsOf, signatureTags, List.mem_cons, List.not_mem_nil, or_false] at ht
  rcases ht with rfl | rfl | rfl | rfl | rfl | rfl | rfl | rfl | rfl
  · exact mk (by decide) (List.all_eq_true.1 (by decide))
  · exact mk (by decide) (List.all_eq_true.1 (by decide))
  · exact mk (by decide) (List.all_eq_true.1 (by decide))
  · exact mk (by decide) (isValchar_of_mem_domain _)
  · exact mk (by decide) (isValchar_of_mem_domain _)
  · exact mk (by decide) fun x hx => isValchar_of_digit (decimal_digits _ x hx)
  · exact mk (by decide) hh
  · exact mk (by decide) fun x hx => isValchar_of_base64 (hssl.base64_alphabet _ x hx)
  · exact mk (by decide) fun x hx => isValchar_of_base64 (hb x hx)

/-- Tokens of tags that can be written are not empty and hold no white space. -/
theorem tagTokens_plain : ∀ {tags : List Tag}, (∀ t ∈ tags, TagOk t) → ∀ x ∈ tagTokens tags,
    x ≠ [] ∧ ∀ b ∈ x, isLwsp b = false
  | [], _, x, hx => by cases hx
  | [t], hok, x, hx => by
    obtain rfl : x = tagText t := by simpa [tagTokens] using hx
    exact tagText_plain (hok t (by simp))
  | t :: u :: ts, hok, x, hx => by
    rcases List.mem_cons.1 hx with rfl | hx
    · obtain ⟨h1, h2⟩ := tagText_plain (hok t (by simp))
      refine ⟨by simp, fun b hb => ?_⟩
      rcases List.mem_append.1 hb with hb | hb
      · exact h2 b hb
      · obtain rfl : b = SEMICOLON := by simpa using hb
        rfl
    · exact tagTokens_plain (fun y hy => hok y (List.mem_cons_of_mem _ hy)) x hx

/-! ## The fields selected -/

/-- The fields of a message with `g` applied to the values. -/
def fieldsOf (g : Bytes → Bytes) (headers : List Header) : List Field := headers.map fun h => (h.name, g h.value)

/-- The field added to the message. -/
def signatureField (value : Bytes) : Field := (dkimSignatureName, value)

/-- The names of h= after the two From slots. -/
def otherNames (headers : List Header) : List Bytes :=
  signedHeaders.tail.filter fun name => (bottomMost headers name).isSome

theorem hNamesOf_from {headers : List Header} (h : (bottomMost headers fromName).isSome = true) :
    hNamesOf headers = fromName :: fromName :: otherNames headers := by
  have htail : ∀ names : List Bytes, (∀ n ∈ names, n ≠ fromName) →
      (names.flatMap fun name => (if (bottomMost headers name).isSome then [name] else []) ++
        if name = fromName then [fromName] else []) = names.filter fun name => (bottomMost headers name).isSome := by
    intro names hne
    induction names with
    | nil => rfl
    | cons n names ih =>
      rw [List.flatMap_cons, ih fun m hm => hne m (by simp [hm]), if_neg (hne n (by simp))]
      cases hb : (bottomMost headers n).isSome <;> simp [hb]
  rw [hNamesOf, show signedHeaders = fromName :: signedHeaders.tail from rfl, List.flatMap_cons, if_pos h, if_pos rfl,
    htail _ (by decide)]
  rfl

theorem named_iff {name : Bytes} {f : Field} : Field.named name f = true ↔ lower f.1 = lower name := by
  rw [Field.named, eqIgnoreAsciiCase_iff]

/-- No field bears two names of the table. -/
theorem signedHeaders_distinct {names : List Bytes} (h : names.Sublist signedHeaders) : Distinct Field.named names := by
  have hpair : signedHeaders.Pairwise fun n n' => lower n ≠ lower n' := by decide
  refine (hpair.sublist h).imp fun {n n'} hne f hf => ?_
  rw [Bool.eq_false_iff]
  intro hf'
  exact hne ((named_iff.1 hf).symm.trans (named_iff.1 hf'))

theorem otherNames_sublist (headers : List Header) : (fromName :: otherNames headers).Sublist signedHeaders :=
  List.Sublist.cons_cons fromName List.filter_sublist

theorem signatureField_not_named (value : Bytes) {name : Bytes} (h : name ∈ signedHeaders) :
    Field.named name (signatureField value) = false := by
  have hall : ∀ n ∈ signedHeaders, eqIgnoreAsciiCase dkimSignatureName n = false := by decide
  exact hall name h

theorem filter_fieldsOf (g : Bytes → Bytes) (headers : List Header) (name : Bytes) :
    (fieldsOf g headers).filter (Field.named name) = fieldsOf g (headers.filter (·.is name)) := by
  rw [fieldsOf, List.filter_map]
  rfl

/-- The fields of one name, the new field being none of them. -/
theorem filter_message (g : Bytes → Bytes) (pre post : List Header) (value : Bytes) {name : Bytes}
    (h : name ∈ signedHeaders) :
    (fieldsOf g pre ++ signatureField value :: fieldsOf g post).filter (Field.named name) =
      fieldsOf g ((pre ++ post).filter (·.is name)) := by
  rw [List.filter_append, List.filter_cons_of_neg (by simp [signatureField_not_named value h]), filter_fieldsOf,
    filter_fieldsOf, List.filter_append]
  exact List.map_append.symm

theorem bottom_message (g : Bytes → Bytes) (pre post : List Header) (value : Bytes) {name : Bytes}
    (h : name ∈ signedHeaders) :
    bottom Field.named (fieldsOf g pre ++ signatureField value :: fieldsOf g post) name =
      (bottomMost (pre ++ post) name).map fun h => (h.name, g h.value) := by
  rw [bottom, filter_message g pre post value h, fieldsOf, List.getLast?_map, List.getLast?_filter]
  rfl

/-- **The verifier selects the fields that were signed.** -/
theorem selectFields_signed (g : Bytes → Bytes) {pre post : List Header} {header : Header}
    (hfrom : (pre ++ post).filter (·.is fromName) = [header]) (value : Bytes) :
    selectFields Field.named (fieldsOf g pre ++ signatureField value :: fieldsOf g post) (hNamesOf (pre ++ post)) =
      fieldsOf g (signedHeaders.filterMap (bottomMost (pre ++ post))) := by
  have hb : bottomMost (pre ++ post) fromName = some header := by
    rw [bottomMost, ← List.getLast?_filter, hfrom]
    rfl
  have hfilter := filter_message g pre post value (by decide : fromName ∈ signedHeaders)
  rw [hfrom] at hfilter
  have hothers : ∀ names : List Bytes, (∀ n ∈ names, n ∈ signedHeaders) →
      (names.filter fun n => (bottomMost (pre ++ post) n).isSome).filterMap
        (bottom Field.named (fieldsOf g pre ++ signatureField value :: fieldsOf g post)) =
      fieldsOf g (names.filterMap (bottomMost (pre ++ post))) := by
    intro names hnames
    induction names with
    | nil => rfl
    | cons n names ih =>
      have hn := bottom_message g pre post value (hnames n (by simp))
      have ih := ih fun m hm => hnames m (by simp [hm])
      cases hb : bottomMost (pre ++ post) n with
      | none =>
        rw [List.filter_cons_of_neg (by simp [hb]), List.filterMap_cons_none hb, ih]
      | some h =>
        rw [List.filter_cons_of_pos (by simp [hb]), List.filterMap_cons_some hb,
          List.filterMap_cons_some (by rw [hn, hb]; rfl), ih]
        rfl
  rw [hNamesOf_from (by rw [hb]; rfl), selectFields_twice _ (signedHeaders_distinct (otherNames_sublist _)), hfilter,
    otherNames, hothers _ (fun n hn => List.mem_of_mem_tail hn),
    show signedHeaders = fromName :: signedHeaders.tail from rfl, List.filterMap_cons_some hb]
  rfl

/-! ## The signature field -/

/-- Tokens without white space, one space apart, are their own canonical form. -/
theorem relaxedValue_joined {ts : List Bytes} {v : Bytes} (hts : ∀ x ∈ ts, x ≠ [] ∧ ∀ b ∈ x, isLwsp b = false)
    (h : Joined foldSep ts v) : relaxedValue v = [SP].intercalate ts := by
  rw [relaxedValue, words_joined (fun _ => foldSep_lwsp) h fun t ht => (hts t ht).2,
    List.filter_eq_self.2 fun t ht => by simpa using (hts t ht).1]

theorem plain_no_break {ts : List Bytes} (hts : ∀ x ∈ ts, x ≠ [] ∧ ∀ b ∈ x, isLwsp b = false) :
    ∀ x ∈ ts, CR ∉ x ∧ LF ∉ x := by
  intro x hx
  exact ⟨fun hm => absurd ((hts x hx).2 _ hm) (by decide), fun hm => absurd ((hts x hx).2 _ hm) (by decide)⟩

/-- What the verifier reads in a folded signature: the tags, and the field with b= emptied. -/
theorem signature_read {tags : List Tag} {v : Bytes} (hok : ∀ t ∈ tags, TagOk t) (hnodup : (tags.map Prod.fst).Nodup)
    (h : Joined foldSep (tagTokens tags) v) :
    parseTags (removeFolds v) = some tags ∧ relaxedValue (deleteB v) = [SP].intercalate (tagTokens (tags.map emptyB)) ∧
      ∀ name, rfcRelaxedField name (deleteB v) = relaxedField name (deleteB v) := by
  have hplain := tagTokens_plain hok
  have hparse : parseTags (removeFolds v) = some tags := by
    have hjoin := removeFolds_joined h fun t ht => (plain_no_break hplain t ht).1
    have hparts := parseParts_joined (S := unfoldedSep) (s := [])
      (fun s hs b hb => isLwsp_of_isWsp ((unfoldedSep_wsp hs).2 b hb)) hok (by simp) hjoin
    have hne : tags ≠ [] := by rintro rfl; exact h.ne_nil rfl
    rw [List.nil_append] at hparts
    rw [parseTags, hparts]
    exact if_pos ⟨hne, hnodup⟩
  obtain ⟨v', hdel, hjoin⟩ := deleteB_joined (s := []) (fun s hs => (foldSep_lwsp hs).2) hok (by simp) h
  have hok' : ∀ t ∈ tags.map emptyB, TagOk t := by
    intro t ht
    obtain ⟨u, hu, rfl⟩ := List.mem_map.1 ht
    exact emptyB_ok (hok u hu)
  have hplain' := tagTokens_plain hok'
  obtain ⟨hf, hw⟩ := joined_wire hjoin (plain_no_break hplain')
  rw [List.nil_append, List.nil_append] at hdel
  rw [hdel]
  exact ⟨hparse, relaxedValue_joined hplain' hjoin, fun name => by rw [relaxedField_eq_rfc hf, hw]⟩

section
variable (domain selector : Bytes) (timestamp : Nat) (hNames : List Bytes) (bodyHash b : Bytes)

theorem signatureTags_nodup :
    ((signatureTags domain selector timestamp hNames bodyHash b).map Prod.fst).Nodup := by
  have h : ([ascii "v", ascii "a", ascii "c", ascii "d", ascii "s", ascii "t", ascii "h", ascii "bh", ascii "b"] :
    List Bytes).Nodup := by decide
  exact h

theorem signatureTags_emptyB :
    (signatureTags domain selector timestamp hNames bodyHash b).map emptyB =
      signatureTags domain selector timestamp hNames bodyHash [] := by
  have hne : ∀ n ∈ [ascii "v", ascii "a", ascii "c", ascii "d", ascii "s", ascii "t", ascii "h", ascii "bh"],
    n ≠ [98] := by decide
  have hkeep : ∀ n v, n ≠ [98] → emptyB (n, v) = (n, v) := fun n v h => if_neg h
  have hb : ∀ v, emptyB (ascii "b", v) = (ascii "b", []) := fun v => if_pos (show ascii "b" = [98] by decide)
  simp only [List.forall_mem_cons] at hne
  simp only [signatureTags, List.map_cons, List.map_nil, hb, hkeep _ _ hne.1, hkeep _ _ hne.2.1, hkeep _ _ hne.2.2.1,
    hkeep _ _ hne.2.2.2.1, hkeep _ _ hne.2.2.2.2.1, hkeep _ _ hne.2.2.2.2.2.1, hkeep _ _ hne.2.2.2.2.2.2.1,
    hkeep _ _ hne.2.2.2.2.2.2.2.1]

theorem signatureTags_h :
    (signatureTags domain selector timestamp hNames bodyHash b).lookup [104] = some ([COLON].intercalate hNames) := rfl

end

theorem hTagNames_hNamesOf {headers : List Header} (h : hNamesOf headers ≠ []) :
    hTagNames ([COLON].intercalate (hNamesOf headers)) = hNamesOf headers := by
  have hno : ∀ n ∈ hNamesOf headers, COLON ∉ n := fun n hn hm => ((mem_hNamesOf hn).2 _ hm).2 rfl
  rw [hTagNames, List.splitOn_intercalate COLON hno h]
  refine (List.map_congr_left fun n hn => ?_).trans (List.map_id _)
  have := stripFws_append (s := []) (w := n) (by simp) fun b hb => (valchar_plain ((mem_hNamesOf hn).2 b hb).1).1
  simpa using this

section
variable {env : Env Key} (hssl : env.ssl.Documented) (config : RuntimeConfig Key) (headers : List Header)
  (bodyHash : Digest) (timestamp : UInt64)
include hssl

theorem foldSignature_tags {b : Bytes} (hb : ∀ x ∈ b, isBase64Byte x = true) :
    Joined foldSep (tagTokens (tagsOf env config headers bodyHash timestamp b))
      (foldSignature (unsignedOf env config headers bodyHash timestamp ++ b)) := by
  have hplain := tagTokens_plain (tagsOf_ok hssl.toEncodes config headers bodyHash timestamp hb)
  rw [unsignedOf_tags]
  cases htok : tagTokens (tagsOf env config headers bodyHash timestamp b) with
  | nil => exact absurd htok (tagTokens_cons_ne_nil _ _)
  | cons t ts =>
    rw [htok] at hplain
    exact foldSignature_joined (hplain t (by simp)).1 fun x hx hm => absurd ((hplain x hx).2 _ hm) (by decide)

theorem relaxedValue_unsignedOf :
    relaxedValue (unsignedOf env config headers bodyHash timestamp) =
      [SP].intercalate (tagTokens (tagsOf env config headers bodyHash timestamp [])) := by
  have hcat := unsignedOf_tags env config headers bodyHash timestamp []
  rw [List.append_nil] at hcat
  rw [hcat]
  exact relaxedValue_joined (tagTokens_plain (tagsOf_ok hssl.toEncodes config headers bodyHash timestamp (by simp)))
    (joined_intercalate (Or.inl rfl) (tagTokens_cons_ne_nil _ _))

/-- **The field read back**: its tags, and with b= emptied the canonical form that was hashed. -/
theorem foldSignature_read {b : Bytes} (hb : ∀ x ∈ b, isBase64Byte x = true) {value : Bytes}
    (hvalue : value = foldSignature (unsignedOf env config headers bodyHash timestamp ++ b)) :
    parseTags (removeFolds value) = some (tagsOf env config headers bodyHash timestamp b) ∧
      ∀ name, relaxedField name (deleteB value) = relaxedField name (unsignedOf env config headers bodyHash timestamp) ∧
        rfcRelaxedField name (deleteB value) = relaxedField name (unsignedOf env config headers bodyHash timestamp) := by
  have hjoin := foldSignature_tags hssl config headers bodyHash timestamp hb
  obtain ⟨hparse, hrelaxed, hrfc⟩ := signature_read (tagsOf_ok hssl.toEncodes config headers bodyHash timestamp hb)
    (signatureTags_nodup _ _ _ _ _ _) (hvalue ▸ hjoin)
  refine ⟨hparse, fun name => ?_⟩
  have hfield : relaxedField name (deleteB value) =
      relaxedField name (unsignedOf env config headers bodyHash timestamp) := by
    rw [relaxedField, relaxedField, relaxedValue_unsignedOf hssl, hrelaxed, tagsOf, signatureTags_emptyB]
    rfl
  exact ⟨hfield, (hrfc name).trans hfield⟩

end

/-- What the verifier hashes, from the canonical forms of the fields selected and of the new one. -/
theorem verifierInput_eq {canon : Bytes → Bytes → Bytes} {g : Bytes → Bytes} {pre post : List Header} {header : Header}
    (hfrom : (pre ++ post).filter (·.is fromName) = [header]) {value unsigned : Bytes} {tags : List Tag}
    (hparse : parseTags (removeFolds value) = some tags)
    (hlookup : tags.lookup [104] = some ([COLON].intercalate (hNamesOf (pre ++ post))))
    (hfields : ∀ f ∈ signedHeaders.filterMap (bottomMost (pre ++ post)), canon f.name (g f.value) = relaxedField f.name f.value)
    (hsig : canon dkimSignatureName (deleteB value) = relaxedField dkimSignatureName unsigned) :
    verifierInput canon (fieldsOf g pre ++ signatureField value :: fieldsOf g post) (signatureField value) =
      some (hashInputOf (pre ++ post) unsigned) := by
  have hne : hNamesOf (pre ++ post) ≠ [] := by
    rw [hNamesOf_from (by rw [bottomMost, ← List.getLast?_filter, hfrom]; rfl)]
    simp
  have hselect := selectFields_signed g hfrom value
  have hcanon : (fieldsOf g (signedHeaders.filterMap (bottomMost (pre ++ post)))).map (fun f => canon f.1 f.2) =
      (signedHeaders.filterMap (bottomMost (pre ++ post))).map fun h => relaxedField h.name h.value := by
    rw [fieldsOf, List.map_map]
    exact List.map_congr_left hfields
  have hparse' : parseTags (removeFolds (signatureField value).2) = some tags := hparse
  have hsig' : canon (signatureField value).1 (deleteB (signatureField value).2) =
      relaxedField dkimSignatureName unsigned := hsig
  simp only [verifierInput, hparse', Option.bind_eq_bind, Option.bind_some, hlookup, hTagNames_hNamesOf hne, hselect,
    hcanon, hsig', hashInputOf]
  rfl

/-- **The verifier hashes what the signer hashed.** -/
theorem sign_verifies {env : Env Key} (hssl : env.ssl.Documented) {config : RuntimeConfig Key} {pre post : List Header}
    {bodyHash : Digest} {signed : Signed} (h : sign env config (pre ++ post) bodyHash = .ok signed) :
    ∃ timestamp signature, env.now = some timestamp ∧ env.ssl.signToVec config.key signed.hashed = .ok signature ∧
      parseTags (removeFolds signed.value) = some (signatureTags config.domain.bytes config.selector.bytes
        timestamp.toNat signed.hNames (env.ssl.base64 bodyHash.toList) (env.ssl.base64 signature)) ∧
      verifierInput relaxedField
        (fieldsOf id pre ++ signatureField signed.value :: fieldsOf id post) (signatureField signed.value) =
          some signed.hashed ∧
      ((∀ name ∈ signedHeaders, ∀ f, bottomMost (pre ++ post) name = some f → foldsOnly f.value = true) →
        verifierInput rfcRelaxedField
          (fieldsOf onWire pre ++ signatureField signed.value :: fieldsOf onWire post) (signatureField signed.value) =
            some signed.hashed) := by
  have hel := eligible_of_sign h
  rw [sign_eligible hel] at h
  obtain ⟨header, domain, hfrom, -, -⟩ := hel
  obtain ⟨timestamp, signature, hnow, hnames, hhashed, hrsa, hvalue⟩ := signSelected_eq_ok h
  obtain ⟨hparse, hsig⟩ := foldSignature_read hssl config (pre ++ post) bodyHash timestamp
    (hssl.base64_alphabet signature) hvalue
  have hlookup := signatureTags_h config.domain.bytes config.selector.bytes timestamp.toNat (hNamesOf (pre ++ post))
    (env.ssl.base64 bodyHash.toList) (env.ssl.base64 signature)
  refine ⟨timestamp, signature, hnow, hrsa, hnames ▸ hparse, ?_, fun hfolds => ?_⟩
  · rw [hhashed]
    exact verifierInput_eq hfrom hparse hlookup (fun f _ => rfl) (hsig _).1
  · rw [hhashed]
    refine verifierInput_eq hfrom hparse hlookup (fun f hf => ?_) (hsig _).2
    obtain ⟨name, hname, hb⟩ := List.mem_filterMap.1 hf
    exact (relaxedField_eq_rfc (hfolds name hname f hb) f.name).symm

end

/-- A From field before the new one and a folded Subject after it. -/
theorem sign_verifies_folded :
    let pre : List Header := [⟨ascii "From", ascii "Alice <alice@example.com>", by decide, by decide⟩]
    let post : List Header := [⟨ascii "Subject", ascii "folded" ++ [LF, TAB] ++ ascii "text", by decide, by decide⟩]
    ∃ signed, sign exampleEnv exampleConfig (pre ++ post) emptyDigest = .ok signed ∧
      verifierInput rfcRelaxedField
        (fieldsOf onWire pre ++ signatureField signed.value :: fieldsOf onWire post) (signatureField signed.value) =
          some signed.hashed := by
  intro pre post
  obtain ⟨signed, h, -⟩ := Exec.okAnd_eq_true.1
    (by decide +kernel : (sign exampleEnv exampleConfig (pre ++ post) emptyDigest).okAnd (fun _ => true) = true)
  obtain ⟨_, _, -, -, -, -, hliteral⟩ := sign_verifies exampleSsl_documented h
  refine ⟨signed, h, hliteral fun name hname f hf => ?_⟩
  have hall : ∀ f ∈ pre ++ post, foldsOnly f.value = true := by decide
  exact hall f (bottomMost_eq_some hf).1

/-- A bare CR is white space for the signer and an ordinary byte for the literal canonicalization. -/
theorem bare_cr_differs :
    let headers : List Header :=
      [⟨ascii "From", ascii "alice@example.com", by decide, by decide⟩,
        ⟨ascii "Subject", ascii "a" ++ [CR] ++ ascii "b", by decide, by decide⟩]
    ∃ signed, sign exampleEnv exampleConfig headers emptyDigest = .ok signed ∧
      verifierInput rfcRelaxedField (fieldsOf id headers ++ [signatureField signed.value])
        (signatureField signed.value) ≠ some signed.hashed := by
  intro headers
  obtain ⟨signed, h, hne⟩ := Exec.okAnd_eq_true.1
    (by decide +kernel : (sign exampleEnv exampleConfig headers emptyDigest).okAnd (fun signed =>
      verifierInput rfcRelaxedField (fieldsOf id headers ++ [signatureField signed.value])
        (signatureField signed.value) != some signed.hashed) = true)
  exact ⟨signed, h, by simpa using hne⟩

end DkimLite
