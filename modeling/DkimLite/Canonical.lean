import DkimLite.VerifierSpec

/-!
# Canonical header fields

`canonical_header` is what `canonicalize_header` (`src/dkim.rs:212-239`) returns for any name and
any value: the words of the value, joined by single spaces. It is a normal form (`words_words`),
and on values whose line breaks are CRLF folds it is the relaxed form of RFC 6376 read literally.

The name is lower-cased and copied. `Header::new` lets no line break into a name, but the
function itself does not look: `line_break_in_name` is a name that puts one into the output.
-/

namespace DkimLite
open Rust Text Rfc

/-- Every line break is a CRLF before a space or tab. -/
def crlfFolds : Bytes → Bool
  | [] => true
  | b :: r =>
    if b = CR then
      match r with
      | c :: d :: r' => c == LF && isWsp d && crlfFolds (d :: r')
      | _ => false
    else b != LF && crlfFolds r

/-- Such values are the ones the literal form is defined on, and stand in the message as they are. -/
theorem crlfFolds_wire {value : Bytes} (h : crlfFolds value = true) : foldsOnly value = true ∧ onWire value = value := by
  fun_induction crlfFolds value with
  | case1 => exact ⟨rfl, rfl⟩
  | case2 c d r ih =>
    simp only [Bool.and_eq_true, beq_iff_eq] at h
    obtain ⟨⟨rfl, hd⟩, hr⟩ := h
    obtain ⟨hfolds, hwire⟩ := ih hr
    refine ⟨?_, by rw [onWire_crlf, hwire]⟩
    rw [foldsOnly.eq_def]
    simp only [if_true, beq_self_eq_true, Bool.true_and, hd, hfolds]
  | case3 => cases h
  | case4 b r hcr ih =>
    simp only [Bool.and_eq_true, bne_iff_ne, ne_eq] at h
    obtain ⟨hlf, hr⟩ := h
    obtain ⟨hfolds, hwire⟩ := ih hr
    refine ⟨?_, by rw [onWire_other hcr hlf, hwire]⟩
    rw [foldsOnly.eq_def]
    simp only [if_neg hcr, if_neg hlf, hfolds]

/-- The words of words joined by a separator. -/
theorem words_words (value : Bytes) : words isLwsp (relaxedValue value) = words isLwsp value := by
  rw [relaxedValue]
  by_cases hnil : words isLwsp value = []
  · rw [hnil]
    rfl
  · have hjoin : Joined (· = [SP]) (words isLwsp value) ([SP].intercalate (words isLwsp value)) :=
      joined_intercalate (S := (· = [SP])) rfl hnil
    have hsep : ∀ s : Bytes, s = [SP] → s ≠ [] ∧ ∀ b ∈ s, isLwsp b = true := by
      rintro s rfl
      exact ⟨by simp, by simp; rfl⟩
    rw [words_joined hsep hjoin fun w hw => mem_words_other hw]
    refine List.filter_eq_self.2 fun w hw => ?_
    simpa using mem_words hw

theorem relaxedField_idem (name value : Bytes) :
    relaxedField (lower name) (relaxedValue value) = relaxedField name value := by
  rw [relaxedField, relaxedField, relaxedValue, words_words, lower_idem]
  rfl

/-- A canonical value has no line break, and lower-casing brings none into a name. -/
theorem relaxedField_no_break {name : Bytes} {b : UInt8} (hb : b = CR ∨ b = LF) (hname : b ∉ name) (value : Bytes) :
    b ∉ relaxedField name value := by
  intro h
  simp only [relaxedField, List.mem_append, List.mem_cons] at h
  have hlwsp : isLwsp b = true := by rcases hb with rfl | rfl <;> rfl
  rcases h with h | h | h
  · refine hname ((mem_lower_iff ?_ ?_ name).1 h) <;> rcases hb with rfl | rfl <;> decide
  · rcases hb with rfl | rfl <;> revert h <;> decide
  · rcases mem_relaxedValue h with h | ⟨-, h⟩
    · rcases hb with rfl | rfl <;> revert h <;> decide
    · rw [hlwsp] at h
      cases h

/-- **The canonical form of any field**: lower-cased name, colon, the words of the value joined by
single spaces, CRLF. With a name that has no line break the only line break is that CRLF; the
canonical name and value have the same canonical form; and on values with CRLF folds only it is
the literal relaxed form. -/
theorem canonical_header (name value : Bytes) :
    ∃ out, canonicalizeHeader name value = .ok out ∧
      out = lower name ++ COLON :: [SP].intercalate (words isLwsp value) ++ CRLF ∧
      (CR ∉ name → LF ∉ name → ∃ field, out = field ++ CRLF ∧ CR ∉ field ∧ LF ∉ field) ∧
      canonicalizeHeader (lower name) ([SP].intercalate (words isLwsp value)) = .ok out ∧
      (crlfFolds value = true → out = rfcRelaxedField name value ++ CRLF) := by
  refine ⟨relaxedField name value ++ CRLF, canonicalizeHeader_eq name value, rfl, fun hcr hlf => ?_, ?_, fun hfolds => ?_⟩
  · exact ⟨_, rfl, relaxedField_no_break (Or.inl rfl) hcr value, relaxedField_no_break (Or.inr rfl) hlf value⟩
  · rw [canonicalizeHeader_eq]
    exact congrArg (fun field => Exec.ok (field ++ CRLF)) (relaxedField_idem name value)
  · obtain ⟨hf, hwire⟩ := crlfFolds_wire hfolds
    rw [relaxedField_eq_rfc hf, hwire]

/-- A name that is a line feed. -/
theorem line_break_in_name : ¬ ∀ name value out, canonicalizeHeader name value = .ok out →
    ∃ field, out = field ++ CRLF ∧ CR ∉ field ∧ LF ∉ field := by
  intro h
  have hout : canonicalizeHeader [LF] [] = .ok ([LF, COLON] ++ CRLF) := by decide
  obtain ⟨field, heq, -, hlf⟩ := h [LF] [] _ hout
  obtain rfl := List.append_cancel_right heq
  exact hlf (by decide)

end DkimLite
