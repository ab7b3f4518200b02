import DkimLite.Text.Lines

/-!
# `BodyCanonicalizer` (`src/dkim.rs:51-148`)

| here | there |
| --- | --- |
| `BodyCanonicalizer` | the struct (`dkim.rs:51-57`); `hasher` is the concatenation of the bytes given to `Sha256::update` |
| `emitContent`, `endLine` | `emit_content` (`:114`), `end_line` (`:130`) |
| `updateStep`, `update` | the `while` loop of `update` (`:71-112`) and one iteration of it |
| `finish` | `finish` (`:140`); `flush` is what it does before `hasher.finish()` |
| `referenceStep`, `referenceBody` | the byte-at-a-time `reference_body` of the tests (`:469-536`) |

`update_eq`: a call to `update` never panics, always leaves its loop, and does to the state
what the byte-at-a-time reference does, so only the concatenation of the chunks matters
(`updates_eq`).
-/

namespace DkimLite
open Rust Text

/-- A SHA-256 digest, `[u8; 32]`. -/
abbrev Digest := Vector UInt8 32

structure BodyCanonicalizer where
  hasher : Bytes
  pendingWsp : Bool
  pendingEmptyLines : Nat
  lineHasContent : Bool
  sawCr : Bool
deriving DecidableEq, Repr

namespace BodyCanonicalizer

/-- `Default::default()` -/
def default : BodyCanonicalizer := ⟨[], false, 0, false, false⟩

def emitContent (c : BodyCanonicalizer) (content : Bytes) : BodyCanonicalizer :=
  let c :=
    if !c.lineHasContent && 0 < c.pendingEmptyLines then
      { c with
        hasher := c.hasher ++ joinLines (List.replicate c.pendingEmptyLines [])
        pendingEmptyLines := 0 }
    else c
  let c := if c.pendingWsp then { c with hasher := c.hasher ++ [SP], pendingWsp := false } else c
  { c with hasher := c.hasher ++ content, lineHasContent := true }

def endLine (c : BodyCanonicalizer) : BodyCanonicalizer :=
  let c := { c with pendingWsp := false }
  if c.lineHasContent then { c with hasher := c.hasher ++ CRLF, lineHasContent := false }
  else { c with pendingEmptyLines := saturatingAdd c.pendingEmptyLines 1 }

/-- The bytes `update` does not treat as ordinary content. -/
def isSpecial (b : UInt8) : Bool := b == CR || b == LF || b == SP || b == TAB

/-- The rest of an iteration, after the pending CR was dealt with (`:81-110`). -/
def updateRest (c : BodyCanonicalizer) (data : Bytes) :
    Exec (Flow (BodyCanonicalizer × Bytes) BodyCanonicalizer) := do
  let ordinary := data.findIdx isSpecial
  if 0 < ordinary then
    let content ← sliceTo data ordinary
    let rest ← sliceFrom data ordinary
    return .again (c.emitContent content, rest)
  let b ← index data 0
  if b = CR then
    return .again ({ c with sawCr := true }, ← sliceFrom data 1)
  else if b = LF then
    return .again (c.endLine, ← sliceFrom data 1)
  else if b = SP ∨ b = TAB then
    let whitespace := data.findIdx fun b => !isWsp b
    return .again ({ c with pendingWsp := true }, ← sliceFrom data whitespace)
  else .panic

def updateStep : BodyCanonicalizer × Bytes → Exec (Flow (BodyCanonicalizer × Bytes) BodyCanonicalizer)
  | (c, data) =>
    if data.isEmpty then return .done c
    else if c.sawCr then do
      let c := { c with sawCr := false }.endLine
      if (← index data 0) = LF then return .again (c, ← sliceFrom data 1)
      else updateRest c data
    else updateRest c data

def update (c : BodyCanonicalizer) (data : Bytes) : Exec BodyCanonicalizer :=
  whileLoop updateStep (data.length + 1) (c, data)

/-- `finish` up to the call of `hasher.finish()`. -/
def flush (c : BodyCanonicalizer) : BodyCanonicalizer :=
  if c.sawCr then c.endLine
  else if c.lineHasContent then { c with pendingWsp := false, hasher := c.hasher ++ CRLF }
  else c

/-- `finish`, for a SHA-256 given as a function of what was fed to it. -/
def finish (sha256 : Bytes → Digest) (c : BodyCanonicalizer) : Digest := sha256 c.flush.hasher

/-- Feeding a list of chunks, one `update` each. -/
def updates (c : BodyCanonicalizer) : List Bytes → Exec BodyCanonicalizer
  | [] => .ok c
  | chunk :: chunks => do
    let c ← c.update chunk
    c.updates chunks

/-! ## The byte-at-a-time reference of the tests -/

/-- The `match byte` of `reference_body` (`:496-521`). -/
def referenceByte (c : BodyCanonicalizer) (b : UInt8) : BodyCanonicalizer :=
  if b = CR then { c with sawCr := true }
  else if b = LF then c.endLine
  else if b = SP ∨ b = TAB then { c with pendingWsp := true }
  else c.emitContent [b]

def referenceStep (c : BodyCanonicalizer) (b : UInt8) : BodyCanonicalizer :=
  if c.sawCr then
    let c := { c with sawCr := false }.endLine
    if b = LF then c else c.referenceByte b
  else c.referenceByte b

/-- The bytes `reference_body` hashes. -/
def referenceBody (data : Bytes) : Bytes := (data.foldl referenceStep default).flush.hasher

/-! ## `update` is the reference, a slice at a time -/

@[simp] theorem endLine_sawCr (c : BodyCanonicalizer) : c.endLine.sawCr = c.sawCr := by
  simp only [endLine]; split <;> rfl

@[simp] theorem emitContent_sawCr (c : BodyCanonicalizer) (bs : Bytes) : (c.emitContent bs).sawCr = c.sawCr := by
  simp only [emitContent]; split <;> split <;> rfl

theorem isSpecial_eq_false {b : UInt8} : isSpecial b = false ↔ b ≠ CR ∧ b ≠ LF ∧ b ≠ SP ∧ b ≠ TAB := by
  simp [isSpecial]; tauto

theorem referenceStep_ordinary {c : BodyCanonicalizer} (hc : c.sawCr = false) {b : UInt8}
    (hb : isSpecial b = false) : c.referenceStep b = c.emitContent [b] := by
  obtain ⟨h1, h2, h3, h4⟩ := isSpecial_eq_false.1 hb
  simp [referenceStep, referenceByte, hc, h1, h2, h3, h4]

theorem emitContent_append (c : BodyCanonicalizer) (a : UInt8) (bs : Bytes) :
    (c.emitContent [a]).emitContent bs = c.emitContent (a :: bs) := by
  obtain ⟨h, pw, pe, lc, cr⟩ := c
  cases pw <;> cases lc <;> by_cases hpe : 0 < pe <;> simp [emitContent, hpe]

/-- A non-empty slice of ordinary bytes. -/
theorem foldl_ordinary : ∀ {w : Bytes} {c : BodyCanonicalizer}, c.sawCr = false → w ≠ [] →
    (∀ b ∈ w, isSpecial b = false) → w.foldl referenceStep c = c.emitContent w
  | [], _, _, h, _ => absurd rfl h
  | [b], c, hc, _, hw => by simp [referenceStep_ordinary hc (hw b (by simp))]
  | b :: b' :: w, c, hc, _, hw => by
    rw [List.foldl_cons, referenceStep_ordinary hc (hw b (by simp)),
      foldl_ordinary (by simpa using hc) (by simp) (fun x hx => hw x (by simp only [List.mem_cons] at hx ⊢; tauto)),
      emitContent_append]

/-- A non-empty run of white space. -/
theorem foldl_wsp {w : Bytes} {c : BodyCanonicalizer} (hc : c.sawCr = false) (hne : w ≠ [])
    (hw : ∀ b ∈ w, isWsp b = true) : w.foldl referenceStep c = { c with pendingWsp := true } := by
  have step : ∀ {c : BodyCanonicalizer} {b : UInt8}, c.sawCr = false → isWsp b = true →
      c.referenceStep b = { c with pendingWsp := true } := by
    intro c b hc hb
    have hb' : b = SP ∨ b = TAB := by simpa [isWsp] using hb
    have h1 : b ≠ CR := by rcases hb' with rfl | rfl <;> decide
    have h2 : b ≠ LF := by rcases hb' with rfl | rfl <;> decide
    simp [referenceStep, referenceByte, hc, h1, h2, hb']
  induction w generalizing c with
  | nil => exact absurd rfl hne
  | cons b w ih =>
    rw [List.foldl_cons, step hc (hw b (by simp))]
    cases w with
    | nil => rfl
    | cons b' w => rw [ih (by exact hc) (by simp) fun x hx => hw x (by simp [hx])]

/-- What an iteration owes: the same outcome of the remaining bytes, and fewer of them. -/
private def Owed (target : BodyCanonicalizer) : BodyCanonicalizer × Bytes → Prop :=
  fun s => s.2.foldl referenceStep s.1 = target

theorem take_findIdx_forall {α : Type} (q : α → Bool) (l : List α) : ∀ b ∈ l.take (l.findIdx q), q b = false := by
  intro b hb
  obtain ⟨i, hi, rfl⟩ := List.mem_iff_getElem.1 hb
  simp only [List.length_take] at hi
  rw [List.getElem_take]
  simpa using List.not_of_lt_findIdx (by omega : i < l.findIdx q)

theorem updateRest_owed {target : BodyCanonicalizer} {c : BodyCanonicalizer} {data : Bytes}
    (hc : c.sawCr = false) (hne : data ≠ []) (h : data.foldl referenceStep c = target) :
    ∃ r, updateRest c data = .ok r ∧
      IterPost (Owed target) (fun s => s.2.length) (· = target) data.length r := by
  have hle : data.findIdx isSpecial ≤ data.length := List.findIdx_le_length
  have hsplit := List.take_append_drop (data.findIdx isSpecial) data
  by_cases hpos : 0 < data.findIdx isSpecial
  · -- the fast path: a slice of ordinary bytes
    refine ⟨.again (c.emitContent (data.take (data.findIdx isSpecial)), data.drop (data.findIdx isSpecial)), ?_, ?_, ?_⟩
    · simp [updateRest, hpos, sliceTo_ok hle, sliceFrom_ok hle]
    · have hord : (data.take (data.findIdx isSpecial)).foldl referenceStep c =
          c.emitContent (data.take (data.findIdx isSpecial)) :=
        foldl_ordinary hc (by simp [hne]; omega) (take_findIdx_forall isSpecial data)
      rw [← hsplit, List.foldl_append, hord] at h
      exact h
    · show (data.drop (data.findIdx isSpecial)).length < data.length
      rw [List.length_drop]
      omega
  · obtain ⟨b, rest, rfl⟩ := List.exists_cons_of_ne_nil hne
    have hsp : isSpecial b = true := by
      by_contra hcon
      exact hpos (by simp [List.findIdx_cons, hcon])
    have hzero : (b :: rest).findIdx isSpecial = 0 := by omega
    have hs1 : sliceFrom (b :: rest) 1 = .ok rest := by simp [sliceFrom]
    rw [List.foldl_cons] at h
    by_cases h1 : b = CR
    · subst h1
      refine ⟨.again ({ c with sawCr := true }, rest), by simp [updateRest, hzero, hs1], ?_, by simp⟩
      simpa [referenceStep, referenceByte, hc, Owed] using h
    by_cases h2 : b = LF
    · subst h2
      refine ⟨.again (c.endLine, rest), by simp [updateRest, hzero, hs1, h1], ?_, by simp⟩
      simpa [referenceStep, referenceByte, hc, h1, Owed] using h
    have hw : b = SP ∨ b = TAB := by simpa [isSpecial, h1, h2] using hsp
    have hwsp : isWsp b = true := by simpa [isWsp] using hw
    -- the whole white-space run is skipped at once
    have hle' : (b :: rest).findIdx (fun b => !isWsp b) ≤ (b :: rest).length := List.findIdx_le_length
    have hpos' : 0 < (b :: rest).findIdx (fun b => !isWsp b) := by simp [List.findIdx_cons, hwsp]
    refine ⟨.again ({ c with pendingWsp := true }, (b :: rest).drop ((b :: rest).findIdx fun b => !isWsp b)), ?_, ?_, ?_⟩
    · simp only [updateRest, hzero, Nat.lt_irrefl, if_false, index_cons_zero, Exec.ok_bind, h1, h2, hw, if_true,
        sliceFrom_ok hle', Exec.pure_eq]
    · have hrun : ((b :: rest).take ((b :: rest).findIdx fun b => !isWsp b)).foldl referenceStep c =
          { c with pendingWsp := true } :=
        foldl_wsp hc (by simp; omega) (by
          intro x hx; simpa using take_findIdx_forall (fun b => !isWsp b) (b :: rest) x hx)
      have hsplit' := List.take_append_drop ((b :: rest).findIdx fun b => !isWsp b) (b :: rest)
      rw [← List.foldl_cons, ← hsplit', List.foldl_append, hrun] at h
      exact h
    · simp only [List.length_drop]; omega

theorem updateStep_owed {target : BodyCanonicalizer} (s : BodyCanonicalizer × Bytes) (h : Owed target s) :
    ∃ r, updateStep s = .ok r ∧ IterPost (Owed target) (fun s => s.2.length) (· = target) s.2.length r := by
  obtain ⟨c, data⟩ := s
  simp only [Owed] at h
  cases data with
  | nil => exact ⟨.done c, by simp [updateStep], h⟩
  | cons b rest =>
    cases hcr : c.sawCr
    · simpa [updateStep, hcr] using updateRest_owed hcr (by simp) h
    · -- the CR of the previous byte ends its line; an LF after it belongs to it
      rw [List.foldl_cons] at h
      by_cases hb : b = LF
      · subst hb
        refine ⟨.again ({ c with sawCr := false }.endLine, rest), ?_, ?_, by simp⟩
        · simp [updateStep, hcr, sliceFrom]
        · simpa [referenceStep, hcr, Owed] using h
      · have h' : (b :: rest).foldl referenceStep { c with sawCr := false }.endLine = target := by
          simpa [referenceStep, hcr, hb] using h
        have := updateRest_owed (c := { c with sawCr := false }.endLine) (by simp) (by simp) h'
        simpa [updateStep, hcr, hb] using this

/-- **`update` never panics and does what the byte-at-a-time reference does.** -/
theorem update_eq (c : BodyCanonicalizer) (data : Bytes) : c.update data = .ok (data.foldl referenceStep c) := by
  obtain ⟨a, ha, rfl⟩ := whileLoop_total (Owed (data.foldl referenceStep c)) (fun s => s.2.length)
    (· = data.foldl referenceStep c) updateStep_owed (data.length + 1) (c, data) rfl (Nat.lt_succ_self _)
  exact ha

/-- Chunk boundaries do not matter. -/
theorem updates_eq (chunks : List Bytes) (c : BodyCanonicalizer) :
    c.updates chunks = .ok (chunks.flatten.foldl referenceStep c) := by
  induction chunks generalizing c with
  | nil => rfl
  | cons chunk chunks ih => simp [updates, update_eq, ih]

end BodyCanonicalizer
end DkimLite
