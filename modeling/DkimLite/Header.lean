import DkimLite.Text.Lines

/-!
# `Header` and `canonicalize_header` (`src/dkim.rs:24-48, 212-247`)

| here | there |
| --- | --- |
| `Header`, `Header.new` | the struct and `Header::new` (`dkim.rs:24-43`); the fields `name_ok` and `no_nul` are what `new` checks |
| `Header.is` | `Header::is` (`:45`) |
| `canonicalizeStep`, `canonicalizeHeader` | the loop of `canonicalize_header` (`:212-239`) and the function |
| `canonicalizeSignatureHeader` | `canonicalize_signature_header` (`:241-247`) |

`canonicalizeHeader_eq` is the specification of the loop: the lower-cased name, a colon, the
words of the value joined by single spaces, and CRLF. White space is SP, TAB, CR and LF alike.
-/

namespace DkimLite
open Rust Text

def COLON : UInt8 := 58
def HYPHEN : UInt8 := 45

/-- A byte of a header name (`dkim.rs:34`). -/
def isNameByte (b : UInt8) : Bool := isAsciiAlphanumeric b || b == HYPHEN

/-- A header field as `Header::new` lets it through. -/
structure Header where
  name : Bytes
  value : Bytes
  name_ok : name ≠ [] ∧ name.length ≤ 998 ∧ name.all isNameByte = true
  no_nul : NUL ∉ value
deriving DecidableEq

namespace Header

def new (name value : Bytes) : Except String Header :=
  if h : name.isEmpty || 998 < name.length || !name.all isNameByte || value.contains NUL then
    .error "invalid header supplied by MTA"
  else
    .ok
      { name, value
        name_ok := by
          simp only [Bool.or_eq_true, not_or, decide_eq_true_eq, Bool.not_eq_true', Bool.not_eq_false] at h
          exact ⟨by simpa using h.1.1.1, by omega, h.1.2⟩
        no_nul := by
          simp only [Bool.or_eq_true, not_or] at h
          simpa using h.2 }

/-- `Header::is`; `name` is one of the lower-case names of `SIGNED_HEADERS`. -/
def is (h : Header) (name : Bytes) : Bool := eqIgnoreAsciiCase h.name name

/-- `new` accepts exactly the fields of a `Header`, and keeps them. -/
theorem new_eq_ok {name value : Bytes} {h : Header} :
    new name value = .ok h ↔ h.name = name ∧ h.value = value := by
  constructor
  · intro hn
    simp only [new] at hn
    split at hn
    · cases hn
    · cases hn; exact ⟨rfl, rfl⟩
  · rintro ⟨rfl, rfl⟩
    have hc : h.value.contains NUL = false := by simpa using h.no_nul
    have hne : h.name.isEmpty = false := by simpa using h.name_ok.1
    have hl : ¬ 998 < h.name.length := by have := h.name_ok.2.1; omega
    simp only [new, hne, hl, h.name_ok.2.2, hc, decide_false, Bool.not_true, Bool.or_false]
    rfl

theorem ext_fields {a b : Header} (hn : a.name = b.name) (hv : a.value = b.value) : a = b := by
  cases a; cases b; cases hn; cases hv; rfl

theorem name_colon (h : Header) : COLON ∉ h.name := by
  intro hm
  have := List.all_eq_true.1 h.name_ok.2.2 COLON hm
  exact absurd this (by decide)

theorem name_lf (h : Header) : LF ∉ h.name := by
  intro hm
  have := List.all_eq_true.1 h.name_ok.2.2 LF hm
  exact absurd this (by decide)

end Header

/-! ## `canonicalize_header` -/

/-- One iteration of the loop (`:219-236`): `index`, `out` and `pending_wsp`. -/
def canonicalizeStep (value : Bytes) (valueStart : Nat) :
    Nat × Bytes × Bool → Exec (Flow (Nat × Bytes × Bool) Bytes)
  | (i, out, pendingWsp) =>
    if i < value.length then do
      let b ← index value i
      if b = SP ∨ b = TAB then return .again (i + 1, out, true)
      else if b = CR ∧ value[i + 1]? = some LF then return .again (i + 1 + 1, out, true)
      else if b = CR ∨ b = LF then return .again (i + 1, out, true)
      else
        let out := if pendingWsp && valueStart < out.length then out ++ [SP] else out
        return .again (i + 1, out ++ [b], false)
    else return .done (out ++ CRLF)

def canonicalizeHeader (name value : Bytes) : Exec Bytes :=
  let out := lower name ++ [COLON]
  whileLoop (canonicalizeStep value out.length) (value.length + 1) (0, out, false)

/-- `b"DKIM-Signature"` -/
def dkimSignatureName : Bytes := ascii "DKIM-Signature"

/-- The signature field is hashed without the final CRLF (`truncate(len - 2)`). -/
def canonicalizeSignatureHeader (value : Bytes) : Exec Bytes := do
  let canonical ← canonicalizeHeader dkimSignatureName value
  let len ← checkedSub canonical.length 2
  return canonical.take len

/-! ## What they compute -/

/-- A value with white space trimmed at both ends and every inner run made one SP. -/
def relaxedValue (value : Bytes) : Bytes := [SP].intercalate (words isLwsp value)

/-- A header field in canonical form, without its CRLF. -/
def relaxedField (name value : Bytes) : Bytes := lower name ++ COLON :: relaxedValue value

/-- What the loop still appends, from the bytes to come. -/
private def rest (started pend : Bool) (l : Bytes) : Bytes :=
  if started then squeeze isLwsp SP pend l else squeeze isLwsp SP false (l.dropWhile isLwsp)

private theorem rest_sep (started pend : Bool) {b : UInt8} (hb : isLwsp b = true) (r : Bytes) :
    rest started pend (b :: r) = rest started true r := by
  cases started
  · simp [rest, List.dropWhile_cons_of_pos hb]
  · simp [rest, squeeze_sep hb]

private theorem rest_other (started pend : Bool) {b : UInt8} (hb : isLwsp b = false) (r : Bytes) :
    rest started pend (b :: r) = (if pend && started then [SP] else []) ++ b :: rest true false r := by
  cases started
  · simp [rest, List.dropWhile_cons_of_neg (by simp [hb] : ¬ isLwsp b = true), squeeze_other hb]
  · simp [rest, squeeze_other hb]

private def LoopInv (value : Bytes) (valueStart : Nat) (target : Bytes) : Nat × Bytes × Bool → Prop :=
  fun (i, out, pend) => valueStart ≤ out.length ∧ i ≤ value.length ∧
    out ++ rest (decide (valueStart < out.length)) pend (value.drop i) = target

private theorem canonicalizeStep_inv {value : Bytes} {valueStart : Nat} {target : Bytes}
    (s : Nat × Bytes × Bool) (h : LoopInv value valueStart target s) :
    ∃ r, canonicalizeStep value valueStart s = .ok r ∧
      IterPost (LoopInv value valueStart target) (fun s => value.length - s.1) (· = target ++ CRLF)
        (value.length - s.1) r := by
  obtain ⟨i, out, pend⟩ := s
  obtain ⟨hvs, hile, htarget⟩ := h
  by_cases hi : i < value.length
  · have hdrop : value.drop i = value[i] :: value.drop (i + 1) := List.drop_eq_getElem_cons hi
    have hidx : index value i = .ok value[i] := index_ok (List.getElem?_eq_getElem hi)
    generalize value[i] = b at hdrop hidx
    rw [hdrop] at htarget
    by_cases h1 : b = SP ∨ b = TAB
    · have hb : isLwsp b = true := by rcases h1 with rfl | rfl <;> rfl
      refine ⟨.again (i + 1, out, true), by simp [canonicalizeStep, hi, hidx, h1], ⟨hvs, by omega, ?_⟩, by simp only; omega⟩
      rwa [rest_sep _ _ hb] at htarget
    by_cases h2 : b = CR ∧ value[i + 1]? = some LF
    · -- CRLF counts as one, so the loop steps over both
      obtain ⟨rfl, hlf⟩ := h2
      obtain ⟨hi', hlf'⟩ := List.getElem?_eq_some_iff.1 hlf
      have hdrop' : value.drop (i + 1) = LF :: value.drop (i + 1 + 1) := by
        rw [List.drop_eq_getElem_cons hi', hlf']
      refine ⟨.again (i + 1 + 1, out, true), by simp [canonicalizeStep, hi, hidx, h1, hlf],
        ⟨hvs, by omega, ?_⟩, by simp only; omega⟩
      rwa [rest_sep _ _ (by rfl), hdrop', rest_sep _ _ (by rfl)] at htarget
    by_cases h3 : b = CR ∨ b = LF
    · have hb : isLwsp b = true := by rcases h3 with rfl | rfl <;> rfl
      refine ⟨.again (i + 1, out, true), by simp [canonicalizeStep, hi, hidx, h1, h2, h3], ⟨hvs, by omega, ?_⟩, by simp only; omega⟩
      rwa [rest_sep _ _ hb] at htarget
    · have hb : isLwsp b = false := by simp [isLwsp]; tauto
      obtain ⟨out', hout'⟩ : ∃ out', out' = (if pend && decide (valueStart < out.length) then out ++ [SP] else out) := ⟨_, rfl⟩
      have hlen : out.length ≤ out'.length := by rw [hout']; split <;> simp
      refine ⟨.again (i + 1, out' ++ [b], false), by simp [canonicalizeStep, hi, hidx, h1, h2, h3, hout'],
        ⟨by simp; omega, by omega, ?_⟩, by simp only; omega⟩
      rw [rest_other _ _ hb] at htarget
      rw [← htarget, decide_eq_true (by simp; omega : valueStart < (out' ++ [b]).length), hout']
      split <;> simp
  · have hnil : value.drop i = [] := List.drop_eq_nil_of_le (by omega)
    refine ⟨.done (out ++ CRLF), by simp [canonicalizeStep, hi], ?_⟩
    rw [hnil] at htarget
    simp only [IterPost]
    rw [← htarget]
    cases decide (valueStart < out.length) <;> simp [rest]

/-- **`canonicalize_header` never panics and returns the relaxed field.** -/
theorem canonicalizeHeader_eq (name value : Bytes) :
    canonicalizeHeader name value = .ok (relaxedField name value ++ CRLF) := by
  have hinit : LoopInv value (lower name ++ [COLON]).length (relaxedField name value)
      (0, lower name ++ [COLON], false) := by
    refine ⟨Nat.le_refl _, Nat.zero_le _, ?_⟩
    simp [rest, relaxedField, relaxedValue, squeeze_dropWhile]
  obtain ⟨a, ha, rfl⟩ := whileLoop_total (LoopInv value _ (relaxedField name value)) (fun s => value.length - s.1)
    (· = relaxedField name value ++ CRLF) canonicalizeStep_inv (value.length + 1) _ hinit (by simp only; omega)
  exact ha

theorem canonicalizeSignatureHeader_eq (value : Bytes) :
    canonicalizeSignatureHeader value = .ok (relaxedField dkimSignatureName value) := by
  have h2 : checkedSub (relaxedField dkimSignatureName value ++ CRLF).length 2 =
      .ok (relaxedField dkimSignatureName value).length := by simp [checkedSub, CRLF]
  simp only [canonicalizeSignatureHeader, canonicalizeHeader_eq, Exec.ok_bind, h2, Exec.pure_eq, List.take_left]

example : canonicalizeHeader (ascii "Subject") (ascii "  Re: " ++ CRLF ++ TAB :: ascii " hello: world  ") =
    .ok (ascii "subject:Re: hello: world" ++ CRLF) := by decide

theorem mem_relaxedValue {x : UInt8} {value : Bytes} (h : x ∈ relaxedValue value) :
    x = SP ∨ (x ∈ value ∧ isLwsp x = false) := by
  rw [relaxedValue, ← squeeze_dropWhile] at h
  rcases mem_squeeze h with h | ⟨h, hx⟩
  · exact Or.inl h
  · exact Or.inr ⟨(List.dropWhile_suffix _).subset h, hx⟩

/-- A canonical field holds no line end. -/
theorem relaxedField_lf {name : Bytes} (hn : LF ∉ name) (value : Bytes) : LF ∉ relaxedField name value := by
  intro h
  simp only [relaxedField, List.mem_append, List.mem_cons] at h
  rcases h with h | h | h
  · exact hn ((mem_lower_iff (by decide) (by decide) name).1 h)
  · exact absurd h (by decide)
  · rcases mem_relaxedValue h with h | ⟨-, h⟩
    · exact absurd h (by decide)
    · exact absurd h (by decide)

end DkimLite
