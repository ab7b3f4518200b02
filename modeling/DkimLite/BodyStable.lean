import DkimLite.BodySpec

/-!
# Canonical bodies are stable

`CanonicalBody` is the grammar of what is hashed: lines with single spaces only, each ended by
CRLF, the last one not empty. Everything hashed has that form (`hashInput_canonical`), and hashing
it again changes nothing (`hashInput_idem`). `BodyAlike` relates bodies that a relay may turn into
one another by respacing them, and such bodies are hashed alike (`hashInput_alike`).

The counter of blank lines shows once more: what comes out never holds more than `usize::MAX` of
them in a row, so hashing twice is stable for every body, but a text of the grammar that does hold
more is not its own canonical form (`long_blank_run_changes`).
-/

namespace DkimLite
open Rust Text

/-! ## The grammar -/

/-- A line of a canonical body. -/
structure CanonicalLine (l : Bytes) : Prop where
  no_cr : CR ∉ l
  no_lf : LF ∉ l
  no_tab : TAB ∉ l
  /-- no two adjacent spaces -/
  single : ¬ [SP, SP] <:+: l
  /-- no space before the CRLF -/
  ended : l.getLast? ≠ some SP

/-- Lines, each with its CRLF, the last of them not empty; or nothing. -/
def CanonicalBody (out : Bytes) : Prop :=
  ∃ ls, out = joinLines ls ∧ (∀ l ∈ ls, CanonicalLine l) ∧ ls.getLast? ≠ some []

theorem canonicalLine_nil : CanonicalLine [] := ⟨by simp, by simp, by simp, by simp, by simp⟩

theorem CanonicalLine.squeezed {l : Bytes} (h : CanonicalLine l) : Squeezed isWsp SP l where
  only b hb hw := by
    rcases wsp_cases hw with rfl | rfl
    · rfl
    · exact absurd hb h.no_tab
  single := h.single
  ended := h.ended

/-- A line of the grammar is its own canonical form. -/
theorem CanonicalLine.fixed {l : Bytes} (h : CanonicalLine l) : canonLine l = l := by
  rw [canonLine_eq, squeeze_fixed h.squeezed]

theorem canonLine_canonical {l : Bytes} (hcr : CR ∉ l) (hlf : LF ∉ l) : CanonicalLine (canonLine l) := by
  have hsqueezed : Squeezed isWsp SP (canonLine l) := by
    rw [canonLine_eq]
    exact squeeze_squeezed (by decide) false l
  have hmem : ∀ b ∈ canonLine l, b = SP ∨ b ∈ l := by
    intro b hb
    rw [canonLine_eq] at hb
    exact (mem_squeeze hb).imp_right And.left
  refine ⟨fun h => ?_, fun h => ?_, fun h => ?_, hsqueezed.single, hsqueezed.ended⟩
  · exact (hmem CR h).elim (by decide) hcr
  · exact (hmem LF h).elim (by decide) hlf
  · exact absurd (hsqueezed.only TAB h (by decide)) (by decide)

/-! ## What is hashed has this form -/

/-- The lines `delayed` writes. -/
def delayedLines : Nat → List Bytes → List Bytes
  | _, [] => []
  | n, l :: ls =>
    if l = [] then delayedLines (saturatingAdd n 1) ls else List.replicate n [] ++ l :: delayedLines 0 ls

theorem delayed_eq : ∀ (n : Nat) (ls : List Bytes), delayed n ls = joinLines (delayedLines n ls)
  | _, [] => rfl
  | n, l :: ls => by
    unfold delayed delayedLines
    split
    · exact delayed_eq _ ls
    · rw [joinLines_append, joinLines_cons, delayed_eq 0 ls, List.append_assoc]

theorem mem_delayedLines {l : Bytes} : ∀ {n : Nat} {ls : List Bytes}, l ∈ delayedLines n ls → l = [] ∨ l ∈ ls
  | _, [], h => by cases h
  | n, l' :: ls, h => by
    unfold delayedLines at h
    split at h
    · exact (mem_delayedLines h).imp_right (List.mem_cons_of_mem _)
    · rcases List.mem_append.1 h with h | h
      · exact Or.inl (List.eq_of_mem_replicate h)
      · rcases List.mem_cons.1 h with rfl | h
        · exact Or.inr List.mem_cons_self
        · exact (mem_delayedLines h).imp_right (List.mem_cons_of_mem _)

/-- Blank lines are written in front of another line only. -/
theorem delayedLines_ended : ∀ (n : Nat) (ls : List Bytes), (delayedLines n ls).getLast? ≠ some []
  | _, [] => by simp [delayedLines]
  | n, l :: ls => by
    unfold delayedLines
    split
    · exact delayedLines_ended _ ls
    · rename_i hl
      have hrest := delayedLines_ended 0 ls
      rw [List.getLast?_append, List.getLast?_cons]
      cases hlast : (delayedLines 0 ls).getLast? with
      | none => simpa using hl
      | some l' => simpa [hlast] using hrest

theorem hashInput_lines (chunks : List Bytes) :
    hashInput chunks = .ok (joinLines (delayedLines 0 ((splitLines chunks.flatten).map canonLine))) := by
  rw [hashInput_eq, delayed_eq]

theorem delayedLines_canonical (body : Bytes) :
    ∀ l ∈ delayedLines 0 ((splitLines body).map canonLine), CanonicalLine l := by
  intro l hl
  rcases mem_delayedLines hl with rfl | hl
  · exact canonicalLine_nil
  · obtain ⟨l', hl', rfl⟩ := List.mem_map.1 hl
    exact canonLine_canonical (splitLines_ends hl').1 (splitLines_ends hl').2

/-- **The image**: every body is hashed as a text of the grammar. -/
theorem hashInput_canonical (chunks : List Bytes) : ∃ out, hashInput chunks = .ok out ∧ CanonicalBody out :=
  ⟨_, hashInput_lines chunks, _, rfl, delayedLines_canonical _, delayedLines_ended _ _⟩

/-! ## Texts of the grammar are fixed -/

theorem BlankRunsWithin.append_content {m n : Nat} {l : Bytes} {ls : List Bytes} (hn : n ≤ m) (hl : l ≠ [])
    (h : BlankRunsWithin m ls) : BlankRunsWithin m (List.replicate n [] ++ l :: ls) := by
  intro a k x b he hx
  have hshort : ∀ c, List.replicate n [] = a ++ List.replicate k [] ++ c → k ≤ m := by
    intro c hc
    have := congrArg List.length hc
    simp only [List.length_append, List.length_replicate] at this
    omega
  rcases List.append_eq_append_iff.1 he with ⟨c, hc, hrest⟩ | ⟨c, hc, -⟩
  · cases c with
    | nil => exact hshort [] (by rw [hc]; simp)
    | cons y c =>
      -- the run is after `l`
      obtain ⟨rfl, rfl⟩ : l = y ∧ ls = c ++ x :: b := by simpa using hrest
      rw [List.append_cons, List.append_eq_append_iff] at hc
      rcases hc with ⟨d, hd, hc⟩ | ⟨d, -, hc⟩
      · rcases List.eq_nil_or_concat d with rfl | ⟨d', y, rfl⟩
        · exact h [] k x b (by simpa using hc.symm) hx
        · obtain rfl : l = y := by simpa using congrArg List.getLast? hd
          have hmem : l ∈ List.replicate k [] := by rw [hc]; simp
          exact absurd (List.eq_of_mem_replicate hmem) hl
      · exact h d k x b (by rw [hc]) hx
  · exact hshort c (by rw [hc])

theorem blankRunsWithin_of_length_le {m : Nat} {ls : List Bytes} (h : ls.length ≤ m) : BlankRunsWithin m ls := by
  intro a n l b he _
  have := congrArg List.length he
  simp only [List.length_append, List.length_replicate, List.length_cons] at this
  omega

theorem delayedLines_within : ∀ {n : Nat} (ls : List Bytes), n ≤ usizeMax → BlankRunsWithin usizeMax (delayedLines n ls)
  | _, [], _ => by
    intro a n l b he
    simp [delayedLines] at he
  | n, l :: ls, hn => by
    unfold delayedLines
    split
    · exact delayedLines_within ls (Nat.min_le_right _ _)
    · rename_i hl
      exact BlankRunsWithin.append_content hn hl (delayedLines_within ls (Nat.zero_le _))

/-- Blank lines at the end are never written. -/
theorem delayed_append_blank {tail : List Bytes} (htail : ∀ l ∈ tail, l = []) :
    ∀ (n : Nat) (ls : List Bytes), delayed n (ls ++ tail) = delayed n ls
  | n, [] => by
    induction tail generalizing n with
    | nil => rfl
    | cons l tail ih =>
      obtain rfl : l = [] := htail l (by simp)
      simpa [delayed] using ih (fun x hx => htail x (List.mem_cons_of_mem _ hx)) (saturatingAdd n 1)
  | n, l :: ls => by
    rw [List.cons_append]
    unfold delayed
    split <;> rw [delayed_append_blank htail]

theorem hashInput_fixed {ls : List Bytes} (hls : ∀ l ∈ ls, CanonicalLine l) (hlast : ls.getLast? ≠ some [])
    (hruns : BlankRunsWithin usizeMax ls) {chunks : List Bytes} (h : chunks.flatten = joinLines ls) :
    hashInput chunks = .ok (joinLines ls) := by
  have hsplit : splitLines (joinLines ls) = ls ++ [[]] :=
    splitLines_joinLines fun l hl => ⟨(hls l hl).no_cr, (hls l hl).no_lf⟩
  have hmap : (ls ++ [[]]).map canonLine = ls ++ [[]] :=
    (List.map_congr_left fun l hl => by
      rcases List.mem_append.1 hl with hl | hl
      · exact (hls l hl).fixed
      · obtain rfl := List.mem_singleton.1 hl
        rfl).trans (List.map_id _)
  have hexact : delayed 0 ls = joinLines (ls.rdropWhile List.isEmpty) := delayed_exact (n := 0) hruns
  have hdrop : ls.rdropWhile List.isEmpty = ls := by
    rw [List.rdropWhile_eq_self_iff]
    intro hne hempty
    rw [List.getLast?_eq_some_getLast hne] at hlast
    exact hlast (congrArg some (List.isEmpty_iff.1 hempty))
  rw [hashInput_eq, h, hsplit, hmap, delayed_append_blank (by simp), hexact, hdrop]

/-- **Hashing twice.** -/
theorem hashInput_idem {chunks chunks' : List Bytes} {out : Bytes} (hout : hashInput chunks = .ok out)
    (h : chunks'.flatten = out) : hashInput chunks' = .ok out := by
  rw [hashInput_lines, Exec.ok.injEq] at hout
  rw [← hout] at h ⊢
  exact hashInput_fixed (delayedLines_canonical _) (delayedLines_ended _ _) (delayedLines_within _ (Nat.zero_le _)) h

/-! ## Bodies that differ in their white space -/

/-- Two bodies that differ in the white space at the end of their lines, in the kind and the length
of the other white-space runs, and in the blank lines at the end. A body whose last line end is
missing lacks one blank line of `splitLines`. -/
def BodyAlike (body body' : Bytes) : Prop :=
  ∃ ls ls' tail tail', splitLines body = ls ++ tail ∧ splitLines body' = ls' ++ tail' ∧
    List.Forall₂ (SpacedAlike isWsp) ls ls' ∧ (∀ l ∈ tail, Blank l) ∧ ∀ l ∈ tail', Blank l

theorem canonLine_blank {l : Bytes} (h : Blank l) : canonLine l = [] := by
  rw [canonLine_eq, squeeze_eq_nil_iff]
  exact h

theorem map_canonLine_alike {ls ls' : List Bytes} (h : List.Forall₂ (SpacedAlike isWsp) ls ls') :
    ls.map canonLine = ls'.map canonLine := by
  induction h with
  | nil => rfl
  | cons hline _ ih => rw [List.map_cons, List.map_cons, ih, canonLine_eq, canonLine_eq, squeeze_alike hline]

theorem delayed_map_blank {tail : List Bytes} (h : ∀ l ∈ tail, Blank l) (ls : List Bytes) :
    delayed 0 ((ls ++ tail).map canonLine) = delayed 0 (ls.map canonLine) := by
  rw [List.map_append]
  refine delayed_append_blank (fun l hl => ?_) 0 _
  obtain ⟨l', hl', rfl⟩ := List.mem_map.1 hl
  exact canonLine_blank (h l' hl')

theorem hashInput_alike {chunks chunks' : List Bytes} (h : BodyAlike chunks.flatten chunks'.flatten) :
    hashInput chunks = hashInput chunks' := by
  obtain ⟨ls, ls', tail, tail', hsplit, hsplit', halike, htail, htail'⟩ := h
  rw [hashInput_eq, hashInput_eq, hsplit, hsplit', delayed_map_blank htail, delayed_map_blank htail',
    map_canonLine_alike halike]

/-- **Body canonicalization is stable.** Everything hashed is a text of the grammar and is its own
canonical form; so is every text of the grammar with at most `usize::MAX` blank lines in a row; and
bodies that differ in white space only are hashed alike. -/
theorem body_stable (chunks : List Bytes) :
    (∃ out, hashInput chunks = .ok out ∧ CanonicalBody out ∧
      ∀ chunks' : List Bytes, chunks'.flatten = out → hashInput chunks' = .ok out) ∧
    (CanonicalBody chunks.flatten → BlankRunsWithin usizeMax (splitLines chunks.flatten) →
      hashInput chunks = .ok chunks.flatten) ∧
    ∀ chunks' : List Bytes, BodyAlike chunks.flatten chunks'.flatten → hashInput chunks = hashInput chunks' := by
  refine ⟨?_, ?_, fun chunks' => hashInput_alike⟩
  · obtain ⟨out, hout, hcanonical⟩ := hashInput_canonical chunks
    exact ⟨out, hout, hcanonical, fun chunks' h => hashInput_idem hout h⟩
  · rintro ⟨ls, hjoin, hls, hlast⟩ hruns
    rw [hjoin, splitLines_joinLines fun l hl => ⟨(hls l hl).no_cr, (hls l hl).no_lf⟩] at hruns
    rw [hashInput_fixed hls hlast (fun a n l b he => hruns a n l (b ++ [[]]) (by rw [he]; simp)) hjoin, ← hjoin]

theorem exampleLine_canonical : CanonicalLine (ascii "a b") := by
  constructor <;> decide

/-- A text of the grammar, and a body that is respaced into it. -/
theorem body_stable_respaced : hashInput [ascii "a b" ++ CRLF] = .ok (ascii "a b" ++ CRLF) ∧
    hashInput [ascii "a b" ++ CRLF] = hashInput [ascii "a" ++ [TAB, SP] ++ ascii "b", [SP]] := by
  obtain ⟨-, hfixed, halike⟩ := body_stable [ascii "a b" ++ CRLF]
  constructor
  · refine hfixed ⟨[ascii "a b"], by decide, fun l hl => ?_, by decide⟩ (blankRunsWithin_of_length_le ?_)
    · rw [List.mem_singleton.1 hl]
      exact exampleLine_canonical
    · decide
  · refine halike _ ⟨[ascii "a b"], [ascii "a" ++ [TAB, SP] ++ ascii "b" ++ [SP]], [[]], [], by decide, by decide, ?_, ?_, ?_⟩
    · refine .cons (.other ?_) .nil
      have hsp : ∀ b ∈ [SP], isWsp b = true := List.forall_mem_singleton.2 rfl
      have hws : ∀ b ∈ [TAB, SP], isWsp b = true := List.forall_mem_cons.2 ⟨rfl, hsp⟩
      have hend : SpacedAlike isWsp (ascii "b") (ascii "b" ++ [SP]) := .other (.trailing (by simp) hsp)
      exact @SpacedAlike.run _ _ [SP] [TAB, SP] _ _ (List.cons_ne_nil _ _) (List.cons_ne_nil _ _) hsp hws hend
    · simp [Blank]
    · simp

/-! ## A run of blank lines the counter cannot hold -/

/-- `n` blank lines and an `x`. -/
def blankThenX (n : Nat) : List Bytes := List.replicate n [] ++ [[120]]

theorem blankThenX_canonical (n : Nat) : ∀ l ∈ blankThenX n, CanonicalLine l := by
  intro l hl
  rcases List.mem_append.1 hl with hl | hl
  · rw [List.eq_of_mem_replicate hl]
    exact canonicalLine_nil
  · rw [List.mem_singleton.1 hl]
    constructor <;> decide

theorem hashInput_blankThenX (n : Nat) :
    hashInput [joinLines (blankThenX n)] = .ok (joinLines (blankThenX (min n usizeMax))) := by
  have hends : ∀ l ∈ blankThenX n, CR ∉ l ∧ LF ∉ l := fun l hl =>
    ⟨(blankThenX_canonical n l hl).no_cr, (blankThenX_canonical n l hl).no_lf⟩
  have hdelayed := delayed_replicate n 0 (Nat.zero_le _)
  rw [Nat.zero_add] at hdelayed
  rw [hashInput_eq, List.flatten_singleton, splitLines_joinLines hends, List.map_append, blankThenX, map_canonLine_blank,
    List.map_singleton, canonicalLine_nil.fixed, delayed_append_blank (by simp), hdelayed]
  simp [blankThenX, CRLF]

/-- **2^64 blank lines and an `x`** are a text of the grammar that is not its own canonical form. -/
theorem long_blank_run_changes : ∃ out, CanonicalBody out ∧ hashInput [out] ≠ .ok out := by
  refine ⟨joinLines (blankThenX (usizeMax + 1)), ⟨_, rfl, blankThenX_canonical _, ?_⟩, fun h => ?_⟩
  · unfold blankThenX
    rw [List.getLast?_append]
    simp
  · rw [hashInput_blankThenX, Exec.ok.injEq] at h
    have hlen := congrArg List.length h
    simp only [blankThenX, joinLines_append, List.length_append, length_joinLines_replicate_nil] at hlen
    omega

end DkimLite
