import DkimLite.Body

/-!
# The relaxed body, and that the streaming canonicalizer computes it

`relaxedBody` is the purpose of `BodyCanonicalizer`, said on the whole body at once: cut into
lines, collapse white space in each, drop the empty lines at the end, write the rest with
CRLF. The streaming code is related to it in two steps. `emitted` is what the canonicalizer
still writes for the bytes to come, in terms of its flags (`flush_foldl`), so that no
invariant about the bytes already seen is needed; `emitted_lines` then reads it line by line.

Blank lines are counted in a `usize` that saturates (`dkim.rs:136`), so a run of more than
`usize::MAX` of them before a line with content comes out shorter: `delayed` is the output
for every input, `delayed_exact` says when it is the relaxed body, and
`saturated_body_shorter` is an input where it is not.
-/

namespace DkimLite
open Rust Text BodyCanonicalizer

/-- A line in relaxed form: white-space runs become one SP, trailing SP goes. -/
def canonLine (l : Bytes) : Bytes := (collapse isWsp SP l).rdropWhile (· == SP)

/-- The relaxed canonicalization of a whole body. -/
def relaxedBody (body : Bytes) : Bytes :=
  joinLines (((splitLines body).map canonLine).rdropWhile List.isEmpty)

/-- The bytes `chunks` make the canonicalizer give to SHA-256. -/
def hashInput (chunks : List Bytes) : Exec Bytes := do
  let c ← BodyCanonicalizer.default.updates chunks
  .ok c.flush.hasher

theorem canonLine_eq (l : Bytes) : canonLine l = squeeze isWsp SP false l := by
  refine (rdropWhile_collapse (q := (· == SP)) (by decide) (fun b hb => ?_) l).1
  simp only [isWsp, Bool.or_eq_false_iff] at hb
  exact hb.1

/-! ## What is still to be written -/

/-- What a canonicalizer with these flags writes for the bytes to come (line ends as LF). -/
def emitted (pend : Bool) (blank : Nat) (content : Bool) : Bytes → Bytes
  | [] => if content then CRLF else []
  | b :: r =>
    if b = LF then
      if content then CRLF ++ emitted false blank false r else emitted false (saturatingAdd blank 1) false r
    else if isWsp b then emitted true blank content r
    else (if content then [] else joinLines (List.replicate blank [])) ++ (if pend then [SP] else []) ++
      b :: emitted false (if content then blank else 0) true r

theorem endLine_emitted (c : BodyCanonicalizer) (r : Bytes) :
    c.endLine.hasher ++ emitted c.endLine.pendingWsp c.endLine.pendingEmptyLines c.endLine.lineHasContent r =
      c.hasher ++ emitted c.pendingWsp c.pendingEmptyLines c.lineHasContent (LF :: r) := by
  cases h : c.lineHasContent <;> simp [endLine, emitted, h]

theorem emitContent_emitted (c : BodyCanonicalizer) {b : UInt8} (hb : isSpecial b = false) (r : Bytes) :
    (c.emitContent [b]).hasher ++ emitted (c.emitContent [b]).pendingWsp (c.emitContent [b]).pendingEmptyLines
        (c.emitContent [b]).lineHasContent r =
      c.hasher ++ emitted c.pendingWsp c.pendingEmptyLines c.lineHasContent (b :: r) := by
  obtain ⟨-, h2, h3, h4⟩ := isSpecial_eq_false.1 hb
  obtain ⟨h, pw, pe, lc, cr⟩ := c
  cases pw <;> cases lc <;> rcases Nat.eq_zero_or_pos pe with rfl | hpe <;>
    simp_all [emitContent, emitted, isWsp]

theorem referenceByte_emitted (c : BodyCanonicalizer) {b : UInt8} (hb : b ≠ CR) (r : Bytes) :
    (c.referenceByte b).hasher ++ emitted (c.referenceByte b).pendingWsp (c.referenceByte b).pendingEmptyLines
        (c.referenceByte b).lineHasContent r =
      c.hasher ++ emitted c.pendingWsp c.pendingEmptyLines c.lineHasContent (b :: r) := by
  by_cases h2 : b = LF
  · subst h2
    simpa [referenceByte, hb] using endLine_emitted c r
  by_cases h3 : b = SP ∨ b = TAB
  · have hw : isWsp b = true := by simpa [isWsp] using h3
    simp [referenceByte, hb, h2, h3, emitted, hw]
  · have hs : isSpecial b = false := isSpecial_eq_false.2 ⟨hb, h2, by tauto, by tauto⟩
    simpa [referenceByte, hb, h2, h3] using emitContent_emitted c hs r

theorem referenceByte_sawCr {c : BodyCanonicalizer} (hc : c.sawCr = false) {b : UInt8} (hb : b ≠ CR) :
    (c.referenceByte b).sawCr = false := by
  simp only [referenceByte, hb, if_false]
  split
  · simpa using hc
  · split
    · exact hc
    · simpa using hc

/-- A byte after any other state than "just saw a CR". -/
theorem flush_foldl_plain {r : Bytes}
    (ih : ∀ c : BodyCanonicalizer, (r.foldl referenceStep c).flush.hasher = c.hasher ++
      emitted c.pendingWsp c.pendingEmptyLines c.lineHasContent (lineEnds (if c.sawCr then CR :: r else r)))
    {c : BodyCanonicalizer} (hc : c.sawCr = false) (b : UInt8) :
    (r.foldl referenceStep (c.referenceByte b)).flush.hasher = c.hasher ++
      emitted c.pendingWsp c.pendingEmptyLines c.lineHasContent (lineEnds (b :: r)) := by
  by_cases hb : b = CR
  · subst hb
    simpa [referenceByte] using ih { c with sawCr := true }
  · rw [ih, referenceByte_sawCr hc hb, lineEnds_other hb]
    simpa using referenceByte_emitted c hb (lineEnds r)

/-- **The rest of a run**, from any state of the canonicalizer. -/
theorem flush_foldl (p : Bytes) : ∀ c : BodyCanonicalizer, (p.foldl referenceStep c).flush.hasher =
    c.hasher ++ emitted c.pendingWsp c.pendingEmptyLines c.lineHasContent
      (lineEnds (if c.sawCr then CR :: p else p)) := by
  induction p with
  | nil =>
    intro c
    cases hcr : c.sawCr <;> cases hlc : c.lineHasContent <;>
      simp [flush, hcr, hlc, emitted, endLine, lineEnds]
  | cons b r ih =>
    intro c
    rw [List.foldl_cons]
    cases hcr : c.sawCr
    · simpa [referenceStep, hcr] using flush_foldl_plain ih hcr b
    · have hend := endLine_emitted { c with sawCr := false }
      by_cases hb : b = LF
      · subst hb
        have := ih { c with sawCr := false }.endLine
        simp only [endLine_sawCr, Bool.false_eq_true, if_false] at this
        simpa [referenceStep, hcr, this] using hend (lineEnds r)
      · have := flush_foldl_plain ih (c := { c with sawCr := false }.endLine) (by simp) b
        simp only [referenceStep, hcr, if_true, hb, if_false, this, lineEnds_cr_cons hb]
        exact hend (lineEnds (b :: r))

/-! ## Line by line -/

/-- Lines written with blank ones held back until a line with content follows. -/
def delayed : Nat → List Bytes → Bytes
  | _, [] => []
  | n, l :: ls =>
    if l = [] then delayed (saturatingAdd n 1) ls
    else joinLines (List.replicate n []) ++ (l ++ CRLF) ++ delayed 0 ls

/-- Canonical lines, the first of them with white space already pending. -/
def canonLines (pend : Bool) : List Bytes → List Bytes
  | [] => []
  | l :: ls => squeeze isWsp SP pend l :: ls.map (squeeze isWsp SP false)

theorem emitted_lines (q : Bytes) : ∀ pend n,
    emitted pend n false q = delayed n (canonLines pend (q.splitOn LF)) ∧
    ∃ l ls, q.splitOn LF = l :: ls ∧
      emitted pend 0 true q = squeeze isWsp SP pend l ++ CRLF ++ delayed 0 (ls.map (squeeze isWsp SP false)) := by
  induction q with
  | nil => intro pend n; simp [emitted, canonLines, delayed, List.splitOn_nil]
  | cons b r ih =>
    intro pend n
    obtain ⟨l, ls, hsplit, hcontent⟩ := (ih false 0).2
    have hcons : canonLines false (r.splitOn LF) = (r.splitOn LF).map (squeeze isWsp SP false) := by
      rw [hsplit]; rfl
    by_cases h1 : b = LF
    · subst h1
      have hs : (LF :: r).splitOn LF = [] :: r.splitOn LF := by simp [List.splitOn_cons_eq_if_modifyHead]
      refine ⟨?_, [], r.splitOn LF, hs, ?_⟩
      · rw [hs, canonLines, ← hcons]
        simp [emitted, (ih _ _).1, delayed]
      · simp [emitted, (ih _ _).1, hcons]
    · have hs : (b :: r).splitOn LF = (b :: l) :: ls := by
        simp [List.splitOn_cons_eq_if_modifyHead, h1, hsplit]
      cases hw : isWsp b
      · refine ⟨?_, b :: l, ls, hs, ?_⟩
        · rw [hs]
          simp [emitted, h1, hw, canonLines, delayed, squeeze_other hw, hcontent]
        · simp [emitted, h1, hw, squeeze_other hw, hcontent]
      · obtain ⟨l', ls', hsplit', hcontent'⟩ := (ih true n).2
        obtain ⟨rfl, rfl⟩ : l' = l ∧ ls' = ls := by rw [hsplit] at hsplit'; simpa [eq_comm] using hsplit'
        refine ⟨?_, b :: l', ls', hs, ?_⟩
        · rw [hs]; simp [emitted, h1, hw, (ih _ _).1, canonLines, squeeze_sep hw, hsplit]
        · simp [emitted, h1, hw, squeeze_sep hw, hcontent']

/-- **Everything the canonicalizer hashes, for every list of chunks.** -/
theorem hashInput_eq (chunks : List Bytes) :
    hashInput chunks = .ok (delayed 0 ((splitLines chunks.flatten).map canonLine)) := by
  obtain ⟨l, ls, hs, -⟩ := (emitted_lines (lineEnds chunks.flatten) false 0).2
  have hmap : canonLines false (splitLines chunks.flatten) = (splitLines chunks.flatten).map canonLine := by
    rw [splitLines, hs]; simp [canonLines, canonLine_eq]
  rw [hashInput, updates_eq, ← hmap]
  simp only [Exec.ok_bind, flush_foldl]
  simp [BodyCanonicalizer.default, (emitted_lines _ _ _).1, splitLines]

/-! ## When that is the relaxed body -/

/-- At most `m` blank lines stand in a row before a line with content. -/
def BlankRunsWithin (m : Nat) (ls : List Bytes) : Prop :=
  ∀ a n l b, ls = a ++ List.replicate n [] ++ l :: b → l ≠ [] → n ≤ m

theorem rdropWhile_replicate_nil (n : Nat) : (List.replicate n ([] : Bytes)).rdropWhile List.isEmpty = [] := by
  rw [List.rdropWhile_eq_nil_iff]
  intro x hx; rw [(List.mem_replicate.1 hx).2]; rfl

theorem rdropWhile_append_cons {α : Type} {q : α → Bool} (a b : List α) {x : α} (hx : q x = false) :
    (a ++ x :: b).rdropWhile q = a ++ x :: b.rdropWhile q := by
  have hne : (x :: b).rdropWhile q ≠ [] := by rw [rdropWhile_cons _ hx]; simp
  induction a with
  | nil => exact rdropWhile_cons _ hx
  | cons y a ih => rw [List.cons_append, rdropWhile_cons_of_ne_nil _ (by rw [ih]; simp), ih]; rfl

theorem saturatingAdd_min (n : Nat) : saturatingAdd (min n usizeMax) 1 = min (n + 1) usizeMax := by
  simp only [saturatingAdd]; omega

/-- `n` blank lines are waiting, counted as far as the counter goes. -/
theorem delayed_exact : ∀ {ls : List Bytes} {n : Nat}, BlankRunsWithin usizeMax (List.replicate n [] ++ ls) →
    delayed (min n usizeMax) ls = joinLines ((List.replicate n [] ++ ls).rdropWhile List.isEmpty)
  | [], n, _ => by simp [delayed, rdropWhile_replicate_nil]
  | l :: ls, n, h => by
    by_cases hl : l = []
    · subst hl
      have hrep : List.replicate n ([] : Bytes) ++ [] :: ls = List.replicate (n + 1) [] ++ ls := by
        rw [List.replicate_succ', List.append_assoc]; rfl
      rw [hrep] at h ⊢
      simp only [delayed, if_true, saturatingAdd_min]
      exact delayed_exact h
    · have hn : n ≤ usizeMax := h [] n l ls (by simp) hl
      have hrec : delayed (min 0 usizeMax) ls = _ := delayed_exact fun a k l' b he hne =>
        h (List.replicate n [] ++ l :: a) k l' b (by simp at he; simp [he]) hne
      rw [rdropWhile_append_cons _ _ (by simpa using hl)]
      simp only [List.replicate_zero, List.nil_append, Nat.zero_min] at hrec
      simp [delayed, hl, hrec, Nat.min_eq_left hn]

theorem hashInput_relaxed {chunks : List Bytes}
    (h : BlankRunsWithin usizeMax ((splitLines chunks.flatten).map canonLine)) :
    hashInput chunks = .ok (relaxedBody chunks.flatten) := by
  have := delayed_exact (n := 0) (by simpa using h)
  rw [hashInput_eq, relaxedBody]
  simpa using this

theorem length_lineEnds_le (bs : Bytes) : (lineEnds bs).length ≤ bs.length := by
  fun_induction lineEnds bs <;> simp_all
  omega

theorem length_splitOn_le {α : Type} [BEq α] (x : α) (l : List α) : (l.splitOn x).length ≤ l.length + 1 := by
  induction l with
  | nil => simp [List.splitOn_nil]
  | cons b r ih =>
    rw [List.splitOn_cons_eq_if_modifyHead]
    split <;> simp <;> omega

theorem length_splitLines_le (body : Bytes) : (splitLines body).length ≤ body.length + 1 :=
  Nat.le_trans (length_splitOn_le _ _) (Nat.succ_le_succ (length_lineEnds_le body))

/-- A run of blank lines is no longer than the body: no body of at most `usize::MAX` bytes
reaches the counter's limit. -/
theorem blankRunsWithin_of_length {body : Bytes} {m : Nat} (h : body.length ≤ m) :
    BlankRunsWithin m ((splitLines body).map canonLine) := by
  intro a n l b he hl
  have hlines := length_splitLines_le body
  have hlen := congrArg List.length he
  simp only [List.length_map, List.length_append, List.length_replicate, List.length_cons] at hlen
  omega

/-- **The streamed body hash, for every chunking.** What is hashed is what the byte-at-a-time
reference hashes for the concatenation, so it does not depend on the chunk boundaries; and it
is the relaxed body as long as no more than `usize::MAX` blank lines stand in a row before a
line with content, in particular for every body of at most `usize::MAX` bytes. -/
theorem streamed_body_hash (chunks : List Bytes) :
    hashInput chunks = .ok (referenceBody chunks.flatten) ∧
    (∀ chunks' : List Bytes, chunks'.flatten = chunks.flatten → hashInput chunks' = hashInput chunks) ∧
    (BlankRunsWithin usizeMax ((splitLines chunks.flatten).map canonLine) →
      hashInput chunks = .ok (relaxedBody chunks.flatten)) ∧
    (chunks.flatten.length ≤ usizeMax → hashInput chunks = .ok (relaxedBody chunks.flatten)) := by
  refine ⟨?_, fun chunks' h => ?_, hashInput_relaxed, fun h => hashInput_relaxed (blankRunsWithin_of_length h)⟩
  · simp [hashInput, updates_eq, referenceBody]
  · rw [hashInput_eq, hashInput_eq, h]

/-- A CRLF, a white-space run and a run of blank lines, each cut in two. -/
theorem streamed_body_hash_cut : hashInput [[32, 67, 32, 13], [10, 13], [10, 68, 9], [32, 69, 10, 10]] =
    .ok (relaxedBody [32, 67, 32, 13, 10, 13, 10, 68, 9, 32, 69, 10, 10]) :=
  (streamed_body_hash [[32, 67, 32, 13], [10, 13], [10, 68, 9], [32, 69, 10, 10]]).2.2.2 (by decide)

example : hashInput [ascii " C ", [CR], [LF] ++ ascii "D", TAB :: ascii " E", CRLF ++ CRLF] =
    .ok (ascii " C" ++ CRLF ++ ascii "D E" ++ CRLF) := by decide

/-! ## A run of blank lines the counter cannot hold -/

theorem lineEnds_replicate_lf (n : Nat) (b : UInt8) (hb : b ≠ CR) :
    lineEnds (List.replicate n LF ++ [b]) = List.replicate n LF ++ [b] := by
  induction n with
  | zero => simp [lineEnds, hb]
  | succ n ih => rw [List.replicate_succ, List.cons_append, lineEnds_other (by decide), ih]

theorem splitLines_replicate_lf (n : Nat) : splitLines (List.replicate n LF ++ [120]) = List.replicate n [] ++ [[120]] := by
  rw [splitLines, lineEnds_replicate_lf _ _ (by decide)]
  induction n with
  | zero => decide
  | succ n ih =>
    rw [List.replicate_succ, List.cons_append, List.splitOn_cons_eq_if_modifyHead, ih]
    simp [List.replicate_succ]

theorem delayed_replicate (n : Nat) : ∀ k ≤ usizeMax, delayed k (List.replicate n [] ++ [[120]]) =
    joinLines (List.replicate (min (k + n) usizeMax) []) ++ [120, CR, LF] := by
  induction n with
  | zero => intro k hk; simp [delayed, CRLF, Nat.min_eq_left hk]
  | succ n ih =>
    intro k hk
    rw [List.replicate_succ, List.cons_append, delayed, if_pos rfl, ih (saturatingAdd k 1) (Nat.min_le_right _ _)]
    congr 3
    simp only [saturatingAdd]; omega

theorem map_canonLine_blank (n : Nat) :
    (List.replicate n ([] : Bytes) ++ [[120]]).map canonLine = List.replicate n [] ++ [[120]] := by
  rw [List.map_append, List.map_replicate]; rfl

theorem rdropWhile_blank (n : Nat) :
    (List.replicate n ([] : Bytes) ++ [[120]]).rdropWhile List.isEmpty = List.replicate n [] ++ [[120]] :=
  rdropWhile_append_cons (List.replicate n []) [] rfl

/-- **2^64 blank lines and an `x`** (in one chunk): one CRLF fewer is hashed than the relaxed
body has. -/
theorem saturated_body_shorter : ∃ out, hashInput [List.replicate (usizeMax + 1) LF ++ [120]] = .ok out ∧
    out.length + 2 = (relaxedBody (List.replicate (usizeMax + 1) LF ++ [120])).length := by
  rw [hashInput_eq]
  refine ⟨_, rfl, ?_⟩
  generalize hN : usizeMax + 1 = N
  have hmin : min (0 + N) usizeMax = usizeMax := by omega
  simp only [List.flatten_cons, List.flatten_nil, List.append_nil, splitLines_replicate_lf, relaxedBody,
    map_canonLine_blank, rdropWhile_blank, delayed_replicate N 0 (Nat.zero_le _), hmin, joinLines_append,
    List.length_append, length_joinLines_replicate_nil]
  simp [CRLF]
  omega

/-- The counter's limit is visible: not every list of chunks hashes its relaxed body. -/
theorem saturated_body_differs :
    ¬ ∀ chunks : List Bytes, hashInput chunks = .ok (relaxedBody chunks.flatten) := by
  intro h
  obtain ⟨out, hout, hlen⟩ := saturated_body_shorter
  have := h [List.replicate (usizeMax + 1) LF ++ [120]]
  rw [hout, Exec.ok.injEq] at this
  rw [this, List.flatten_cons, List.flatten_nil, List.append_nil] at hlen
  omega

end DkimLite
