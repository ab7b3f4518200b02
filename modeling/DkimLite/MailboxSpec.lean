import DkimLite.Mailbox

/-!
# What `from_domain` accepts

First `fromDomain_spec`: the function never panics, and what it accepts in its own terms
(which slices passed which check). Then a grammar of single mailboxes that needs no scanner state
(`IsMailbox`): `Uncomment` replaces comments by a space, `QText`, `DotAtom`, `Phrase` and `White` are
its pieces. `fromDomain_sound` puts the two together: what is accepted is a single mailbox of the
domain returned.

No argument about the quote state of the two later scans is needed: whatever they take for
`<`, `>` and `@`, the pieces around them pass `displayName`, `localPart` and the domain check.
-/

namespace DkimLite
open Rust Text

/-! ## Unfolding -/

/-- Every CR starts a fold, and there is no other control character but the tab. -/
def unfoldable : Bytes → Bool
  | [] => true
  | b :: r =>
    if b = CR then
      match r with
      | c :: d :: r' => c == LF && isWsp d && unfoldable (d :: r')
      | _ => false
    else (!isAsciiControl b || b == TAB) && unfoldable r

theorem unfoldable_other {b : UInt8} (hb : b ≠ CR) (r : Bytes) :
    unfoldable (b :: r) = ((!isAsciiControl b || b == TAB) && unfoldable r) := by
  rw [unfoldable.eq_def]
  simp only [if_neg hb]

theorem unfoldable_fold {d : UInt8} (hd : isWsp d = true) (r : Bytes) :
    unfoldable (CR :: LF :: d :: r) = unfoldable (d :: r) := by
  rw [unfoldable]
  simp [hd]

private def UnfoldInv (value : Bytes) (target : Option Bytes) : Nat × Bytes → Prop :=
  fun (i, u) => i ≤ value.length ∧
    (if unfoldable (value.drop i) then some (u ++ removeFolds (value.drop i)) else none) = target

private theorem unfoldStep_inv {value : Bytes} {target : Option Bytes} (s : Nat × Bytes)
    (h : UnfoldInv value target s) :
    ∃ r, unfoldStep value s = .ok r ∧
      IterPost (UnfoldInv value target) (fun s => value.length - s.1) (· = target) (value.length - s.1) r := by
  obtain ⟨i, u⟩ := s
  obtain ⟨hile, htarget⟩ := h
  by_cases hi : i < value.length
  · have hdrop : value.drop i = value[i] :: value.drop (i + 1) := List.drop_eq_getElem_cons hi
    have hidx : index value i = .ok value[i] := index_ok (List.getElem?_eq_getElem hi)
    have h1 : value[i + 1]? = (value.drop (i + 1))[0]? := by simp
    have h2 : value[i + 2]? = (value.drop (i + 1))[1]? := by simp
    have hd2 : value.drop (i + 2) = (value.drop (i + 1)).drop 1 := by simp
    generalize value[i] = b at hdrop hidx
    rw [hdrop] at htarget
    by_cases hb : b = CR
    · subst hb
      by_cases hfold : value[i + 1]? ≠ some LF ∨ ¬ value[i + 2]?.any isWsp = true
      · -- a CR that does not start a fold is rejected
        refine ⟨.done none, by simp only [unfoldStep, if_pos hi, hidx, Exec.ok_bind, if_true, if_pos hfold, Exec.pure_eq], ?_⟩
        have : unfoldable (CR :: value.drop (i + 1)) = false := by
          rw [h1, h2] at hfold
          match hr : value.drop (i + 1) with
          | [] => rfl
          | [c] => rfl
          | c :: d :: r' =>
            rw [hr] at hfold
            simp only [List.getElem?_cons_zero, List.getElem?_cons_succ, Option.any_some, ne_eq,
              Option.some.injEq] at hfold
            simp only [unfoldable, if_true, Bool.and_eq_false_iff, beq_eq_false_iff_ne, ne_eq]
            rcases hfold with hc | hd
            · exact Or.inl (Or.inl hc)
            · exact Or.inl (Or.inr (by simpa using hd))
        simpa [this] using htarget
      · obtain ⟨hlf, hw⟩ := not_or.1 hfold
        have hlf' : value[i + 1]? = some LF := by simpa using hlf
        rw [h1] at hlf
        rw [h2] at hw
        match hr : value.drop (i + 1) with
        | [] => rw [hr] at hlf; simp at hlf
        | [c] => rw [hr] at hw; simp at hw
        | c :: d :: r' =>
          rw [hr] at hlf hw hd2 htarget
          have hlen : r'.length + 2 ≤ value.length - (i + 1) := by
            have := congrArg List.length hr; simp at this; omega
          obtain rfl : c = LF := by simpa using hlf
          have hwd : isWsp d = true := by simpa using hw
          refine ⟨.again (i + 2, u), by simp only [unfoldStep, if_pos hi, hidx, Exec.ok_bind, if_true, if_neg hfold, Exec.pure_eq],
            ⟨by omega, ?_⟩, by simp only; omega⟩
          rw [hd2, List.drop_succ_cons, List.drop_zero]
          simpa [unfoldable, hwd, removeFolds_fold] using htarget
    · rw [removeFolds_other hb, unfoldable_other hb] at htarget
      by_cases hctl : (isAsciiControl b && b != TAB) = true
      · refine ⟨.done none, by simp only [unfoldStep, if_pos hi, hidx, Exec.ok_bind, if_neg hb, if_pos hctl,
          Exec.pure_eq], ?_⟩
        simp only [Bool.and_eq_true, bne_iff_ne, ne_eq] at hctl
        simpa [hctl.1, hctl.2] using htarget
      · refine ⟨.again (i + 1, u ++ [b]), by simp only [unfoldStep, if_pos hi, hidx, Exec.ok_bind, if_neg hb,
          if_neg hctl, Exec.pure_eq], ⟨by omega, ?_⟩, by simp only; omega⟩
        have hok : (!isAsciiControl b || b == TAB) = true := by
          simp only [Bool.and_eq_true, bne_iff_ne, ne_eq, not_and, not_not] at hctl
          cases hc : isAsciiControl b
          · rfl
          · simpa using hctl hc
        rw [hok, Bool.true_and] at htarget
        simpa using htarget
  · have hnil : value.drop i = [] := List.drop_eq_nil_of_le (by omega)
    refine ⟨.done (some u), by simp [unfoldStep, hi], ?_⟩
    simpa [hnil, unfoldable, removeFolds] using htarget

/-- **The unfolding loop removes the folds of a value that has no other line break.** -/
theorem unfoldValue_eq (value : Bytes) :
    unfoldValue value = .ok (if unfoldable value then some (removeFolds value) else none) := by
  obtain ⟨a, ha, rfl⟩ := whileLoop_total (UnfoldInv value (if unfoldable value then some (removeFolds value) else none))
    (fun s => value.length - s.1) (· = if unfoldable value then some (removeFolds value) else none)
    unfoldStep_inv (value.length + 1) (0, []) ⟨Nat.zero_le _, by simp⟩ (by simp only; omega)
  exact ha

theorem removeFolds_no_control : ∀ {value : Bytes}, unfoldable value = true →
    ∀ b ∈ removeFolds value, isAsciiControl b = true → b = TAB := by
  intro value
  fun_induction unfoldable value with
  | case1 => simp [removeFolds]
  | case2 c d r' ih =>
    intro h x hx hc
    simp only [Bool.and_eq_true, beq_iff_eq] at h
    obtain ⟨⟨rfl, hw⟩, hr⟩ := h
    rw [removeFolds_fold hw] at hx
    exact ih hr x hx hc
  | case3 => simp
  | case4 b r hb ih =>
    intro h x hx hc
    simp only [Bool.and_eq_true, Bool.or_eq_true, Bool.not_eq_true', beq_iff_eq] at h
    rw [removeFolds_other hb, List.mem_cons] at hx
    rcases hx with rfl | hx
    · rcases h.1 with h1 | h1
      · rw [h1] at hc; cases hc
      · exact h1
    · exact ih h.2 x hx hc

/-! ## Comments -/

/-- The rest of a comment after its opening parenthesis, with the closing one. -/
inductive CText : Bytes → Prop
  | close : CText [RPAREN]
  | pair (b : UInt8) {r : Bytes} : CText r → CText (BACKSLASH :: b :: r)
  | nested {c r : Bytes} : CText c → CText r → CText (LPAREN :: (c ++ r))
  | other {b : UInt8} {r : Bytes} : b ≠ LPAREN → b ≠ RPAREN → b ≠ BACKSLASH → CText r → CText (b :: r)

/-- The rest of a quoted string after its opening quote, with the closing one. -/
inductive QText : Bytes → Prop
  | close : QText [DQUOTE]
  | pair (b : UInt8) {r : Bytes} : QText r → QText (BACKSLASH :: b :: r)
  | other {b : UInt8} {r : Bytes} : b ≠ DQUOTE → b ≠ BACKSLASH → QText r → QText (b :: r)

/-- `Uncomment v m`: `m` is `v` with each comment outside quoted strings replaced by a space. -/
inductive Uncomment : Bytes → Bytes → Prop
  | nil : Uncomment [] []
  | plain {b : UInt8} {r m : Bytes} : b ≠ LPAREN → b ≠ RPAREN → b ≠ DQUOTE → Uncomment r m →
      Uncomment (b :: r) (b :: m)
  | quoted {q r m : Bytes} : QText q → Uncomment r m → Uncomment (DQUOTE :: (q ++ r)) (DQUOTE :: (q ++ m))
  | comment {c r m : Bytes} : CText c → Uncomment r m → Uncomment (LPAREN :: (c ++ r)) (SP :: m)

/-- The state in which the loop may end. -/
def StripState.closed (s : StripState) : Prop := s.quoted = false ∧ s.escaped = false ∧ s.commentDepth = 0

theorem stripComments_cons (s : StripState) (b : UInt8) (r : Bytes) :
    stripComments s (b :: r) = stripByte s b >>= fun o => match o with
      | none => .ok none
      | some t => stripComments t r := by
  rw [stripComments]
  cases stripByte s b with
  | ok o => cases o <;> rfl
  | err e => rfl
  | panic => rfl

theorem stripByte_total (s : StripState) (b : UInt8) : ∃ o, stripByte s b = .ok o := by
  unfold stripByte
  split
  · exact ⟨_, rfl⟩
  · split
    · rename_i hd
      simp only [checkedSub_ok hd, Exec.ok_bind, Exec.pure_eq]
      split
      · exact ⟨_, rfl⟩
      · split
        · exact ⟨_, rfl⟩
        · split <;> exact ⟨_, rfl⟩
    · simp only [Exec.pure_eq]
      repeat' split
      all_goals exact ⟨_, rfl⟩

theorem stripComments_total : ∀ (s : StripState) (v : Bytes), ∃ o, stripComments s v = .ok o
  | s, [] => ⟨_, rfl⟩
  | s, b :: r => by
    obtain ⟨o, ho⟩ := stripByte_total s b
    rw [stripComments_cons, ho, Exec.ok_bind]
    cases o with
    | none => exact ⟨_, rfl⟩
    | some t => exact stripComments_total t r

/-- Between comments and quoted strings. -/
abbrev atTop (m : Bytes) : StripState := ⟨m, false, false, 0⟩
/-- Inside a quoted string. -/
abbrev inQuotes (m : Bytes) : StripState := ⟨m, true, false, 0⟩
/-- Inside `d + 1` comments. -/
abbrev inComment (m : Bytes) (d : Nat) : StripState := ⟨m, false, false, d + 1⟩

/-- From inside a comment the loop can only end well past the comment's end. -/
theorem strip_inComment (m : Bytes) {t : StripState} (ht : t.closed) :
    ∀ (n d : Nat) (v : Bytes), v.length ≤ n → stripComments (inComment m d) v = .ok (some t) →
      ∃ c r, v = c ++ r ∧ CText c ∧ stripComments ⟨m, false, false, d⟩ r = .ok (some t)
  | _, d, [], _, h => by
    obtain ⟨-, -, hd⟩ := ht
    cases h
    cases hd
  | 0, d, b :: r, hn, h => by simp at hn
  | n + 1, d, b :: r, hn, h => by
    have hr : r.length ≤ n := by simpa using hn
    rw [stripComments_cons] at h
    by_cases h1 : b = BACKSLASH
    · subst h1
      match r with
      | [] => obtain ⟨-, he, -⟩ := ht; cases h; cases he
      | x :: r =>
        have h' : stripComments (inComment m d) r = .ok (some t) := h
        obtain ⟨c, r', rfl, hc, hrest⟩ := strip_inComment m ht n d r (by simp at hr; omega) h'
        exact ⟨BACKSLASH :: x :: c, r', rfl, .pair x hc, hrest⟩
    · by_cases h2 : b = LPAREN
      · subst h2
        have h' : stripComments (inComment m (d + 1)) r = .ok (some t) := h
        obtain ⟨c, r', rfl, hc, hrest⟩ := strip_inComment m ht n (d + 1) r hr h'
        have hr' : r'.length ≤ n := by simp at hr; omega
        obtain ⟨c', r'', rfl, hc', hrest'⟩ := strip_inComment m ht n d r' hr' hrest
        exact ⟨LPAREN :: (c ++ c'), r'', by simp, .nested hc hc', hrest'⟩
      · by_cases h3 : b = RPAREN
        · subst h3
          exact ⟨[RPAREN], r, rfl, .close, h⟩
        · have hstep : stripByte (inComment m d) b = .ok (some (inComment m d)) := by
            simp [stripByte, h1, h2, h3]
          rw [hstep, Exec.ok_bind] at h
          obtain ⟨c, r', rfl, hc, hrest⟩ := strip_inComment m ht n d r hr h
          exact ⟨b :: c, r', rfl, .other h2 h3 h1 hc, hrest⟩

theorem strip_inQuotes {t : StripState} (ht : t.closed) :
    ∀ (n : Nat) (m v : Bytes), v.length ≤ n → stripComments (inQuotes m) v = .ok (some t) →
      ∃ q r, v = q ++ r ∧ QText q ∧ stripComments (atTop (m ++ q)) r = .ok (some t)
  | _, m, [], _, h => by
    obtain ⟨hq, -, -⟩ := ht
    cases h
    cases hq
  | 0, m, b :: r, hn, h => by simp at hn
  | n + 1, m, b :: r, hn, h => by
    have hr : r.length ≤ n := by simpa using hn
    rw [stripComments_cons] at h
    by_cases h1 : b = BACKSLASH
    · subst h1
      match r with
      | [] => obtain ⟨-, he, -⟩ := ht; cases h; cases he
      | x :: r =>
        have h' : stripComments (inQuotes (m ++ [BACKSLASH] ++ [x])) r = .ok (some t) := h
        obtain ⟨q, r', rfl, hq, hrest⟩ := strip_inQuotes ht n _ r (by simp at hr; omega) h'
        exact ⟨BACKSLASH :: x :: q, r', rfl, .pair x hq, by simpa using hrest⟩
    · by_cases h2 : b = DQUOTE
      · subst h2
        exact ⟨[DQUOTE], r, rfl, .close, h⟩
      · have hstep : stripByte (inQuotes m) b = .ok (some (inQuotes (m ++ [b]))) := by
          simp [stripByte, h1, h2]
        rw [hstep, Exec.ok_bind] at h
        obtain ⟨q, r', rfl, hq, hrest⟩ := strip_inQuotes ht n _ r hr h
        exact ⟨b :: q, r', rfl, .other h2 h1 hq, by simpa using hrest⟩

/-- **The comment loop replaces comments by spaces.** -/
theorem strip_atTop {t : StripState} (ht : t.closed) :
    ∀ (n : Nat) (m v : Bytes), v.length ≤ n → stripComments (atTop m) v = .ok (some t) →
      ∃ o, t.mailbox = m ++ o ∧ Uncomment v o
  | _, m, [], _, h => by cases h; exact ⟨[], by simp, .nil⟩
  | 0, m, b :: r, hn, h => by simp at hn
  | n + 1, m, b :: r, hn, h => by
    have hr : r.length ≤ n := by simpa using hn
    rw [stripComments_cons] at h
    by_cases h1 : b = LPAREN
    · subst h1
      have h' : stripComments (inComment (m ++ [SP]) 0) r = .ok (some t) := h
      obtain ⟨c, r', rfl, hc, hrest⟩ := strip_inComment _ ht n 0 r hr h'
      obtain ⟨o, ho, hu⟩ := strip_atTop ht n _ r' (by simp at hr; omega) hrest
      exact ⟨SP :: o, by simpa using ho, .comment hc hu⟩
    · by_cases h2 : b = RPAREN
      · subst h2; cases h
      · by_cases h3 : b = DQUOTE
        · subst h3
          have h' : stripComments (inQuotes (m ++ [DQUOTE])) r = .ok (some t) := h
          obtain ⟨q, r', rfl, hq, hrest⟩ := strip_inQuotes ht n _ r hr h'
          obtain ⟨o, ho, hu⟩ := strip_atTop ht n _ r' (by simp at hr; omega) hrest
          exact ⟨DQUOTE :: (q ++ o), by simpa using ho, .quoted hq hu⟩
        · have hstep : stripByte (atTop m) b = .ok (some (atTop (m ++ [b]))) := by
            simp [stripByte, h1, h2, h3]
          rw [hstep, Exec.ok_bind] at h
          obtain ⟨o, ho, hu⟩ := strip_atTop ht n _ r hr h
          exact ⟨b :: o, by simpa using ho, .plain h1 h2 h3 hu⟩

theorem Uncomment.eq_self {v m : Bytes} (h : Uncomment v m) (hv : ∀ b ∈ v, b ≠ LPAREN ∧ b ≠ DQUOTE) : m = v := by
  induction h with
  | nil => rfl
  | plain _ _ _ _ ih => rw [ih fun x hx => hv x (by simp [hx])]
  | quoted => exact absurd rfl (hv DQUOTE (by simp)).2
  | comment => exact absurd rfl (hv LPAREN (by simp)).1

theorem Uncomment.mem {v m : Bytes} (h : Uncomment v m) : ∀ b ∈ m, b ∈ v ∨ b = SP := by
  induction h with
  | nil => simp
  | plain _ _ _ _ ih =>
    intro x hx
    rcases List.mem_cons.1 hx with rfl | hx
    · simp
    · rcases ih x hx with h | h <;> simp [h]
  | quoted _ _ ih =>
    intro x hx
    simp only [List.mem_cons, List.mem_append] at hx ⊢
    rcases hx with h | h | h
    · simp [h]
    · simp [h]
    · rcases ih x h with h | h <;> simp [h]
  | comment _ _ ih =>
    intro x hx
    simp only [List.mem_cons, List.mem_append] at hx ⊢
    rcases hx with h | h
    · exact Or.inr h
    · rcases ih x h with h | h <;> simp [h]

/-! ## Angle brackets and the at sign -/

/-- The bracket offsets point at brackets already passed, the opening one first. -/
structure AngleOk (bs : Bytes) (i : Nat) (s : AngleState) : Prop where
  start : ∀ k, s.start = some k → k < i ∧ bs[k]? = some LANGLE
  stop : ∀ j, s.stop = some j → bs[j]? = some RANGLE ∧ ∃ k, s.start = some k ∧ k < j

theorem angleByte_ok {bs : Bytes} {i : Nat} {b : UInt8} {s t : AngleState} (hb : bs[i]? = some b)
    (hs : AngleOk bs i s) (h : angleByte s i b = some t) : AngleOk bs (i + 1) t := by
  have hkeep : ∀ {u : AngleState}, u.start = s.start → u.stop = s.stop → AngleOk bs (i + 1) u := by
    intro u h1 h2
    refine ⟨fun k hk => ?_, fun j hj => ?_⟩
    · obtain ⟨hlt, hbyte⟩ := hs.start k (h1 ▸ hk)
      exact ⟨by omega, hbyte⟩
    · obtain ⟨hbyte, k, hk, hlt⟩ := hs.stop j (h2 ▸ hj)
      exact ⟨hbyte, k, h1 ▸ hk, hlt⟩
  unfold angleByte at h
  split at h
  · cases h; exact hkeep rfl rfl
  split at h
  · cases h; exact hkeep rfl rfl
  split at h
  · cases h; exact hkeep rfl rfl
  split at h
  · split at h
    · rename_i hopen
      obtain ⟨rfl, hnone⟩ := hopen
      cases h
      refine ⟨fun k hk => ?_, fun j hj => ?_⟩
      · cases hk; exact ⟨by omega, hb⟩
      · -- no bracket is closed before one is opened
        obtain ⟨-, k, hk, -⟩ := hs.stop j hj
        rw [hk] at hnone; cases hnone
    · split at h
      · rename_i hclose
        obtain ⟨rfl, hsome, -⟩ := hclose
        cases h
        refine ⟨fun k hk => ?_, fun j hj => ?_⟩
        · obtain ⟨hlt, hbyte⟩ := hs.start k hk
          exact ⟨by omega, hbyte⟩
        · cases hj
          obtain ⟨k, hk⟩ := Option.isSome_iff_exists.1 hsome
          exact ⟨hb, k, hk, (hs.start k hk).1⟩
      · split at h
        · cases h
        · cases h; exact hkeep rfl rfl
  · cases h; exact hkeep rfl rfl

theorem angleScan_ok {t : AngleState} : ∀ (pre rest : Bytes) (s : AngleState),
    AngleOk (pre ++ rest) pre.length s → angleScan s pre.length rest = some t →
      AngleOk (pre ++ rest) (pre ++ rest).length t
  | pre, [], s, hs, h => by
    cases h
    simpa using hs
  | pre, b :: rest, s, hs, h => by
    rw [angleScan] at h
    cases hb : angleByte s pre.length b with
    | none => rw [hb] at h; cases h
    | some u =>
      rw [hb] at h
      have hu := angleByte_ok (by simp) hs hb
      have := angleScan_ok (pre ++ [b]) rest u (by simpa using hu) (by simpa using h)
      simpa using this

theorem atByte_ok {bs : Bytes} {i : Nat} {b : UInt8} {s t : AtState} (hb : bs[i]? = some b)
    (hs : ∀ k, s.separator = some k → bs[k]? = some AT) (h : atByte s i b = some t) :
    ∀ k, t.separator = some k → bs[k]? = some AT := by
  unfold atByte at h
  split at h
  · cases h; exact hs
  split at h
  · cases h; exact hs
  split at h
  · cases h; exact hs
  split at h
  · rename_i hat
    simp only [Bool.and_eq_true, beq_iff_eq] at hat
    split at h
    · cases h
    · cases h
      intro k hk
      cases hk
      rw [hb, hat.2]
  · cases h; exact hs

theorem atScan_ok {t : AtState} : ∀ (pre rest : Bytes) (s : AtState),
    (∀ k, s.separator = some k → (pre ++ rest)[k]? = some AT) → atScan s pre.length rest = some t →
      ∀ k, t.separator = some k → (pre ++ rest)[k]? = some AT
  | pre, [], s, hs, h => by
    cases h
    exact hs
  | pre, b :: rest, s, hs, h => by
    rw [atScan] at h
    cases hb : atByte s pre.length b with
    | none => rw [hb] at h; cases h
    | some u =>
      rw [hb] at h
      have hget : (pre ++ b :: rest)[pre.length]? = some b := by simp
      have hu := atByte_ok hget hs hb
      have := atScan_ok (pre ++ [b]) rest u (by simpa using hu) (by simpa using h)
      simpa using this

/-- A string cut at an ASCII byte of it. -/
theorem cut_at {b : UInt8} (hb : b.toNat < 128) {s : List Char} {k : Nat} (h : (utf8 s)[k]? = some b) :
    ∃ l r, s = l ++ asciiChar b :: r ∧ k = (utf8 l).length ∧ strTo s k = .ok l ∧ strFrom s (k + 1) = .ok r := by
  obtain ⟨l, r, rfl, rfl⟩ := utf8_index hb h
  exact ⟨l, r, rfl, rfl, strTo_char l r _, strFrom_char hb l r⟩

/-! ## Local parts and display names -/

/-- A dot-separated list of atoms. -/
def DotAtom (v : Bytes) : Prop :=
  ∃ parts, parts ≠ [] ∧ (∀ p ∈ parts, p ≠ [] ∧ ∀ b ∈ p, atomByte b = true) ∧ v = [DOT].intercalate parts

/-- A dot-atom or one quoted string. -/
inductive LocalPart : Bytes → Prop
  | dotAtom {v : Bytes} : DotAtom v → LocalPart v
  | quoted {q : Bytes} : QText q → LocalPart (DQUOTE :: q)

/-- A display phrase: atom bytes, dots, spaces and tabs, bytes above 127, closed quoted strings. -/
inductive Phrase : Bytes → Prop
  | nil : Phrase []
  | byte {b : UInt8} {r : Bytes} : (atomByte b = true ∨ b = DOT ∨ isWsp b = true ∨ 128 ≤ b.toNat) → Phrase r →
      Phrase (b :: r)
  | quoted {q r : Bytes} : QText q → Phrase r → Phrase (DQUOTE :: (q ++ r))

/-- The loop over a quoted local part returns; it returns `true` at a closing quote that ends the text. -/
theorem localQuoted_spec (len : Nat) : ∀ (r : Bytes) (i : Nat) (escaped : Bool), i + r.length = len → 0 < i →
    ∃ a, localQuoted len i escaped r = .ok a ∧
      (a = true → if escaped then ∃ x q, r = x :: q ∧ QText q else QText r)
  | [], i, escaped, _, _ => ⟨false, rfl, by simp⟩
  | b :: r, i, escaped, hlen, hi => by
    have hlen' : i + 1 + r.length = len := by simp at hlen; omega
    rw [localQuoted]
    by_cases h1 : (isAsciiControl b && b != TAB) = true
    · exact ⟨false, by rw [if_pos h1]; rfl, by simp⟩
    rw [if_neg h1]
    cases escaped with
    | true =>
      obtain ⟨a, ha, hq⟩ := localQuoted_spec len r (i + 1) false hlen' (by omega)
      exact ⟨a, ha, fun h => ⟨b, r, rfl, hq h⟩⟩
    | false =>
      rw [if_neg (by simp)]
      by_cases h2 : b = BACKSLASH
      · obtain ⟨a, ha, hq⟩ := localQuoted_spec len r (i + 1) true hlen' (by omega)
        refine ⟨a, by rw [if_pos h2, ha], fun h => ?_⟩
        obtain ⟨x, q, rfl, hqt⟩ := hq h
        exact h2 ▸ .pair x hqt
      rw [if_neg h2]
      by_cases h3 : b = DQUOTE
      · refine ⟨i == len - 1, by rw [if_pos h3, checkedSub_ok (by omega)]; rfl, fun h => ?_⟩
        -- the closing quote is the last byte
        obtain rfl : r = [] := List.eq_nil_of_length_eq_zero (by simp only [beq_iff_eq] at h; omega)
        exact h3 ▸ .close
      · obtain ⟨a, ha, hq⟩ := localQuoted_spec len r (i + 1) false hlen' (by omega)
        exact ⟨a, by rw [if_neg h3, ha], fun h => .other h3 h2 (hq h)⟩

theorem localPart_spec (v : Bytes) : ∃ a, localPart v = .ok a ∧ (a = true → LocalPart v) := by
  unfold localPart
  split
  · rename_i hq
    cases v with
    | nil => cases hq
    | cons b r =>
      obtain rfl : b = DQUOTE := by simpa using hq
      obtain ⟨a, ha, hl⟩ := localQuoted_spec (DQUOTE :: r).length r 1 false (by simp; omega) (by omega)
      exact ⟨a, ha, fun h => .quoted (hl h)⟩
  · refine ⟨_, rfl, fun h => .dotAtom ⟨v.splitOn DOT, List.splitOn_ne_nil _ _, ?_, ?_⟩⟩
    · simp only [Bool.and_eq_true, List.all_eq_true, Bool.not_eq_true'] at h
      intro p hp
      obtain ⟨hne, hatom⟩ := h.2 p hp
      exact ⟨by rintro rfl; simp at hne, hatom⟩
    · exact (List.intercalate_splitOn DOT).symm

theorem wsp_of_whitespace {b : UInt8} (h : isAsciiWhitespace b = true) (hctl : isAsciiControl b = true → b = TAB) :
    isWsp b = true := by
  revert h hctl
  exact forall_uint8 (P := fun b => isAsciiWhitespace b = true → (isAsciiControl b = true → b = TAB) → isWsp b = true)
    (by decide +kernel) b

theorem displayLoop_phrase : ∀ (v : Bytes) (quoted escaped : Bool), (∀ b ∈ v, isAsciiControl b = true → b = TAB) →
    (escaped = true → quoted = true) → displayLoop quoted escaped v = true →
      if quoted then if escaped then ∃ x q r, v = x :: (q ++ r) ∧ QText q ∧ Phrase r
        else ∃ q r, v = q ++ r ∧ QText q ∧ Phrase r
      else Phrase v
  | [], quoted, escaped, _, _, h => by
    simp only [displayLoop, Bool.and_eq_true, Bool.not_eq_true'] at h
    rw [h.1]
    exact .nil
  | b :: v, quoted, escaped, hctl, hesc, h => by
    have hctl' : ∀ x ∈ v, isAsciiControl x = true → x = TAB := fun x hx => hctl x (by simp [hx])
    rw [displayLoop] at h
    cases escaped with
    | true =>
      obtain rfl := hesc rfl
      rw [if_pos rfl] at h
      split at h
      · cases h
      · obtain ⟨q, r, rfl, hq, hr⟩ := displayLoop_phrase v true false hctl' (by simp) h
        exact ⟨b, q, r, rfl, hq, hr⟩
    | false =>
      rw [if_neg (by simp)] at h
      cases quoted with
      | true =>
        rw [if_pos rfl] at h
        simp only [if_true, if_false, Bool.false_eq_true]
        by_cases h1 : b = BACKSLASH
        · rw [if_pos h1] at h
          obtain ⟨x, q, r, rfl, hq, hr⟩ := displayLoop_phrase v true true hctl' (by simp) h
          exact ⟨BACKSLASH :: x :: q, r, by rw [h1]; rfl, .pair x hq, hr⟩
        rw [if_neg h1] at h
        by_cases h2 : b = DQUOTE
        · rw [if_pos h2] at h
          exact ⟨[DQUOTE], v, by rw [h2]; rfl, .close, displayLoop_phrase v false false hctl' (by simp) h⟩
        rw [if_neg h2] at h
        split at h
        · cases h
        · obtain ⟨q, r, rfl, hq, hr⟩ := displayLoop_phrase v true false hctl' (by simp) h
          exact ⟨b :: q, r, rfl, .other h2 h1 hq, hr⟩
      | false =>
        rw [if_neg (by simp)] at h
        simp only [if_false, Bool.false_eq_true]
        by_cases h1 : b = DQUOTE
        · rw [if_pos h1] at h
          obtain ⟨q, r, rfl, hq, hr⟩ := displayLoop_phrase v true false hctl' (by simp) h
          exact h1 ▸ .quoted hq hr
        rw [if_neg h1] at h
        split at h
        · cases h
        · rename_i hb
          refine .byte ?_ (displayLoop_phrase v false false hctl' (by simp) h)
          by_cases ha : atomByte b = true
          · exact Or.inl ha
          by_cases hd : b = DOT
          · exact Or.inr (Or.inl hd)
          by_cases hw : isAsciiWhitespace b = true
          · exact Or.inr (Or.inr (Or.inl (wsp_of_whitespace hw (hctl b (by simp)))))
          · have hna : isAscii b = false := by simpa [ha, hd, hw] using hb
            exact Or.inr (Or.inr (Or.inr (by simpa [isAscii, UInt8.le_iff_toNat_le] using hna)))

/-! ## Mailboxes -/

/-- Spaces, tabs and white-space characters outside ASCII. -/
def White (w : Bytes) : Prop :=
  ∃ s, w = utf8 s ∧ ∀ c ∈ s, isWhitespace c = true ∧ (c.toNat < 128 → c = ' ' ∨ c = '\t')

theorem White.append {v w : Bytes} (hv : White v) (hw : White w) : White (v ++ w) := by
  obtain ⟨s, rfl, hs⟩ := hv
  obtain ⟨t, rfl, ht⟩ := hw
  refine ⟨s ++ t, by simp, fun c hc => ?_⟩
  rcases List.mem_append.1 hc with h | h
  · exact hs c h
  · exact ht c h

theorem white_nil : White [] := ⟨[], rfl, by simp⟩

theorem white_utf8 {s : List Char} (hs : ∀ c ∈ s, isWhitespace c = true)
    (hctl : ∀ b ∈ utf8 s, isAsciiControl b = true → b = TAB) : White (utf8 s) := by
  refine ⟨s, rfl, fun c hc => ⟨hs c hc, fun hlt => ?_⟩⟩
  obtain ⟨l, r, rfl⟩ := List.append_of_mem hc
  have hb := hctl (UInt8.ofNat c.toNat) (by simp [utf8_ascii hlt])
  have hws := hs c hc
  have hn : (UInt8.ofNat c.toNat).toNat < 128 := by simp only [UInt8.toNat_ofNat']; omega
  rw [char_eq_asciiChar hlt] at hws ⊢
  generalize UInt8.ofNat c.toNat = b at hws hb hn ⊢
  revert hn hb hws
  exact forall_uint8 (P := fun b => isWhitespace (asciiChar b) = true → (isAsciiControl b = true → b = TAB) →
    b.toNat < 128 → asciiChar b = ' ' ∨ asciiChar b = '\t') (by decide +kernel) b

/-- The domain as the address has it, and the domain returned: lower case, without trailing dots. -/
structure DomainOf (dom d : Bytes) : Prop where
  chars : ∀ b ∈ dom, isDomainByte b = true
  returned : d = lower (dom.rdropWhile (· == DOT))
  ne_nil : d ≠ []

section grammar
variable (W : Bytes → Prop) (D : Bytes → Prop)

/-- `local W @ W dom`, with `W` the white space allowed and `D` the domain texts allowed. -/
def IsAddress (a : Bytes) : Prop :=
  ∃ loc w w' dom, LocalPart loc ∧ W w ∧ W w' ∧ D dom ∧ a = loc ++ w ++ AT :: (w' ++ dom)

/-- A bare address, or one in angle brackets after a phrase. -/
inductive IsMailbox : Bytes → Prop
  | bare {w a w' : Bytes} : W w → IsAddress W D a → W w' → IsMailbox (w ++ a ++ w')
  | angle {w p v a v' w' : Bytes} : W w → Phrase p → W v → IsAddress W D a → W v' → W w' →
      IsMailbox (w ++ p ++ LANGLE :: (v ++ a ++ v' ++ RANGLE :: w'))

end grammar

/-- A single mailbox whose domain is returned as `d`. -/
abbrev MailboxOf (d : Bytes) : Bytes → Prop := IsMailbox White (DomainOf · d)

theorem MailboxOf.lowered {d m : Bytes} (h : MailboxOf d m) : lower d = d := by
  cases h with
  | bare _ ha _ => obtain ⟨_, _, _, dom, -, -, -, hd, -⟩ := ha; rw [hd.returned, lower_idem]
  | angle _ _ _ ha _ _ => obtain ⟨_, _, _, dom, -, -, -, hd, -⟩ := ha; rw [hd.returned, lower_idem]

theorem MailboxOf.padded {d m w w' : Bytes} (h : MailboxOf d m) (hw : White w) (hw' : White w') :
    MailboxOf d (w ++ m ++ w') := by
  cases h with
  | bare hv ha hv' =>
    have := IsMailbox.bare (hw.append hv) ha (hv'.append hw')
    simpa using this
  | angle hu hp hv ha hv' hu' =>
    have := IsMailbox.angle (hw.append hu) hp hv ha hv' (hu'.append hw')
    simpa using this

/-- What `fromAddress` accepts. -/
theorem fromAddress_spec (escaped quoted : Bool) (address : List Char) :
    ∃ o, fromAddress escaped quoted address = .ok o ∧ ∀ d, o = some d →
      ∃ l r, address = l ++ '@' :: r ∧ LocalPart (utf8 (trim l)) ∧ DomainOf (utf8 (trim r)) d := by
  unfold fromAddress
  cases hscan : atScan ⟨escaped, quoted, none⟩ 0 (utf8 address) with
  | none => exact ⟨none, rfl, by simp⟩
  | some scan =>
    cases hsep : scan.separator with
    | none => exact ⟨none, by simp [hsep], by simp⟩
    | some k =>
      have hk := atScan_ok [] (utf8 address) _ (by simp) hscan k hsep
      obtain ⟨l, r, rfl, -, hto, hfrom⟩ := cut_at (b := AT) (by decide) hk
      obtain ⟨a, ha, hlocal⟩ := localPart_spec (utf8 (trim l))
      simp only [hsep, hto, hfrom, ha, Exec.ok_bind, Exec.pure_eq]
      cases a with
      | false => exact ⟨none, rfl, by simp⟩
      | true =>
        have hdot := utf8_trimEndMatches (b := DOT) (by decide) (trim r)
        rw [show asciiChar DOT = '.' from rfl] at hdot
        simp only [Bool.not_true, Bool.false_eq_true, if_false]
        split
        · exact ⟨none, rfl, by simp⟩
        · rename_i hdom
          refine ⟨_, rfl, fun d hd => ⟨l, r, rfl, hlocal rfl, ?_, ?_, ?_⟩⟩
          all_goals
            cases hd
            simp only [Bool.or_eq_true, Bool.not_eq_true', not_or, Bool.not_eq_true, Bool.not_eq_false,
              List.all_eq_true] at hdom
          · intro b hb
            obtain ⟨n, hn⟩ := trimEndMatches_decomp '.' (trim r)
            rw [hn, utf8_append, List.mem_append] at hb
            rcases hb with hb | hb
            · exact hdom.2 b hb
            · obtain ⟨c, hc, hbc⟩ := List.mem_flatMap.1 hb
              rw [List.eq_of_mem_replicate hc] at hbc
              have hb : b = DOT := by simpa [String.utf8EncodeChar, DOT] using hbc
              rw [hb]
              rfl
          · rw [hdot]
          · intro hnil
            have hu : utf8 (trimEndMatches '.' (trim r)) = utf8 [] := by simpa [lower] using hnil
            rw [utf8_injective hu] at hdom
            simp at hdom

/-- A text without control characters but tabs. -/
def Clean (bs : Bytes) : Prop := ∀ b ∈ bs, isAsciiControl b = true → b = TAB

theorem Clean.mono {v w : Bytes} (h : Clean w) (hvw : v ⊆ w) : Clean v := fun b hb => h b (hvw hb)

/-- Trimming takes white space off both sides. -/
theorem trim_white {s : List Char} (hs : Clean (utf8 s)) :
    ∃ w w', utf8 s = w ++ utf8 (trim s) ++ w' ∧ White w ∧ White w' := by
  obtain ⟨w, w', hdec, hw, hw'⟩ := trim_decomp s
  have hbytes : utf8 s = utf8 w ++ utf8 (trim s) ++ utf8 w' := by
    conv_lhs => rw [hdec]
    simp
  refine ⟨utf8 w, utf8 w', hbytes, white_utf8 hw (hs.mono ?_), white_utf8 hw' (hs.mono ?_)⟩
  · rw [hbytes]; intro b hb; simp [hb]
  · rw [hbytes]; intro b hb; simp [hb]

/-- An accepted address is an address between white space. -/
theorem fromAddress_sound (escaped quoted : Bool) {address : List Char} (hclean : Clean (utf8 address)) :
    ∃ o, fromAddress escaped quoted address = .ok o ∧ ∀ d, o = some d →
      ∃ w a w', utf8 address = w ++ a ++ w' ∧ White w ∧ White w' ∧ IsAddress White (DomainOf · d) a := by
  obtain ⟨o, ho, hacc⟩ := fromAddress_spec escaped quoted address
  refine ⟨o, ho, fun d hd => ?_⟩
  obtain ⟨l, r, rfl, hlocal, hdom⟩ := hacc d hd
  have hbytes : utf8 (l ++ '@' :: r) = utf8 l ++ AT :: utf8 r := by
    rw [utf8_append, utf8_cons]; rfl
  rw [hbytes] at hclean ⊢
  obtain ⟨w₁, w₂, hl, hw₁, hw₂⟩ := trim_white (s := l) (hclean.mono (by intro b hb; simp [hb]))
  obtain ⟨w₃, w₄, hr, hw₃, hw₄⟩ := trim_white (s := r) (hclean.mono (by intro b hb; simp [hb]))
  exact ⟨w₁, _, w₄, by rw [hl, hr]; simp, hw₁, hw₄, utf8 (trim l), w₂, w₃, utf8 (trim r), hlocal, hw₂, hw₃, hdom, rfl⟩

theorem utf8_angle (l m r : List Char) :
    utf8 (l ++ '<' :: (m ++ '>' :: r)) = utf8 l ++ LANGLE :: (utf8 m ++ RANGLE :: utf8 r) := by
  rw [utf8_append, utf8_cons, utf8_append, utf8_cons]; rfl

/-- The slices around a pair of angle brackets. -/
theorem angle_slices (l m r : List Char) :
    sliceTo (utf8 (l ++ '<' :: (m ++ '>' :: r))) (utf8 l).length = .ok (utf8 l) ∧
      strSlice (l ++ '<' :: (m ++ '>' :: r)) ((utf8 l).length + 1) ((utf8 l).length + 1 + (utf8 m).length) = .ok m ∧
      strFrom (l ++ '<' :: (m ++ '>' :: r)) ((utf8 l).length + 1 + (utf8 m).length + 1) = .ok r := by
  have hopen : utf8 (l ++ ['<']) = utf8 l ++ [LANGLE] := by
    rw [utf8_append, utf8_cons]; rfl
  refine ⟨by rw [utf8_angle, sliceTo_append], ?_, ?_⟩
  · have := strSlice_append (l ++ ['<']) m ('>' :: r)
    rw [utf8_append (l ++ _), hopen, List.length_append, List.length_append] at this
    simpa [Nat.add_assoc] using this
  · have := strFrom_char (b := RANGLE) (by decide) (l ++ '<' :: m) r
    rw [show utf8 (l ++ '<' :: m) = utf8 l ++ LANGLE :: utf8 m by rw [utf8_append, utf8_cons]; rfl] at this
    rw [show asciiChar RANGLE = '>' from rfl] at this
    simpa [Nat.add_assoc, Nat.add_comm 1] using this

/-- A text cut at a pair of angle brackets. -/
theorem angle_cut {text : List Char} {k j : Nat} (hk : (utf8 text)[k]? = some LANGLE)
    (hj : (utf8 text)[j]? = some RANGLE) (hkj : k < j) :
    ∃ l m r, text = l ++ '<' :: (m ++ '>' :: r) ∧ sliceTo (utf8 text) k = .ok (utf8 l) ∧
      strSlice text (k + 1) j = .ok m ∧ strFrom text (j + 1) = .ok r := by
  obtain ⟨l, r₀, rfl, rfl, -, -⟩ := cut_at (b := LANGLE) (by decide) hk
  have hl : utf8 (l ++ asciiChar LANGLE :: r₀) = utf8 l ++ LANGLE :: utf8 r₀ := by
    rw [utf8_append, utf8_cons, utf8_asciiChar (by decide)]; rfl
  obtain ⟨i, rfl⟩ : ∃ i, j = (utf8 l).length + 1 + i := ⟨j - ((utf8 l).length + 1), by omega⟩
  have hi : (utf8 r₀)[i]? = some RANGLE := by
    rw [hl, List.getElem?_append_right (by omega)] at hj
    rwa [show (utf8 l).length + 1 + i - (utf8 l).length = i + 1 by omega, List.getElem?_cons_succ] at hj
  obtain ⟨m, r, rfl, rfl, -, -⟩ := cut_at (b := RANGLE) (by decide) hi
  exact ⟨l, m, r, rfl, angle_slices l m r⟩

theorem fromText_sound (escaped quoted : Bool) {text : List Char} (hclean : Clean (utf8 text)) :
    ∃ o, fromText escaped quoted text = .ok o ∧ ∀ d, o = some d → MailboxOf d (utf8 text) := by
  unfold fromText
  cases hscan : angleScan ⟨escaped, quoted, none, none⟩ 0 (utf8 text) with
  | none => exact ⟨none, rfl, by simp⟩
  | some scan =>
    have hok := angleScan_ok [] (utf8 text) _ ⟨by simp, by simp⟩ hscan
    simp only
    cases hstart : scan.start with
    | none =>
      cases hstop : scan.stop with
      | some j => exact ⟨none, rfl, by simp⟩
      | none =>
        obtain ⟨o, ho, hacc⟩ := fromAddress_sound scan.escaped scan.quoted hclean
        refine ⟨o, ho, fun d hd => ?_⟩
        obtain ⟨w, a, w', htext, hw, hw', ha⟩ := hacc d hd
        exact htext ▸ .bare hw ha hw'
    | some k =>
      cases hstop : scan.stop with
      | none => exact ⟨none, rfl, by simp⟩
      | some j =>
        obtain ⟨hj, k', hk', hkj⟩ := hok.stop j hstop
        obtain rfl : k = k' := by rw [hstart] at hk'; exact Option.some.inj hk'
        obtain ⟨l, m, r, hcut, hl, hm, hr⟩ := angle_cut (hok.start k hstart).2 hj hkj
        have htext := congrArg utf8 hcut
        rw [utf8_angle] at htext
        rw [htext] at hclean
        have hcl : Clean (utf8 l) := hclean.mono (by intro b hb; simp [hb])
        have hcm : Clean (utf8 m) := hclean.mono (by intro b hb; simp [hb])
        have hcr : Clean (utf8 r) := hclean.mono (by intro b hb; simp [hb])
        simp only [hl, hm, hr, Exec.ok_bind, Exec.pure_eq]
        cases hname : displayName (utf8 l) with
        | false => exact ⟨none, rfl, by simp⟩
        | true =>
          have hphrase : Phrase (utf8 l) := displayLoop_phrase _ false false hcl (by simp) hname
          simp only [Bool.not_true, Bool.false_eq_true, if_false]
          by_cases hrest : trim r = []
          swap
          · exact ⟨none, by rw [if_pos (by simpa using hrest)], by simp⟩
          rw [if_neg (by simpa using hrest)]
          obtain ⟨w₁, w₂, hmid, hw₁, hw₂⟩ := trim_white hcm
          obtain ⟨w₃, w₄, htail, hw₃, hw₄⟩ := trim_white hcr
          rw [hrest, utf8_nil, List.append_nil] at htail
          obtain ⟨o, ho, hacc⟩ := fromAddress_sound scan.escaped scan.quoted
            (hcm.mono (by rw [hmid]; intro b hb; simp [hb]) : Clean (utf8 (trim m)))
          refine ⟨o, ho, fun d hd => ?_⟩
          obtain ⟨w, a, w', haddr, hw, hw', ha⟩ := hacc d hd
          have := IsMailbox.angle white_nil hphrase (hw₁.append hw) ha (hw'.append hw₂) (hw₃.append hw₄)
          rw [htext, hmid, haddr, htail]
          simpa using this

/-- Every value is read without a panic, and what is accepted is a single mailbox. -/
theorem fromDomain_spec (value : Bytes) :
    ∃ o, fromDomain value = .ok o ∧ ∀ d, o = some d → ∃ m, Uncomment (removeFolds value) m ∧ MailboxOf d m := by
  unfold fromDomain
  rw [unfoldValue_eq]
  by_cases hun : unfoldable value = true
  swap
  · exact ⟨none, by simp [hun], by simp⟩
  obtain ⟨o, ho⟩ := stripComments_total (atTop []) (removeFolds value)
  simp only [hun, if_true, Exec.ok_bind, ho]
  cases o with
  | none => exact ⟨none, rfl, by simp⟩
  | some s =>
    by_cases hclosed : s.quoted = true ∨ s.escaped = true ∨ s.commentDepth ≠ 0
    · exact ⟨none, by simp only [Exec.pure_eq]; rw [if_pos (by simpa [or_assoc] using hclosed)], by simp⟩
    simp only [not_or, Bool.not_eq_true, not_not] at hclosed
    obtain ⟨m, hm, hunc⟩ := strip_atTop hclosed _ [] _ (le_refl _) ho
    rw [List.nil_append] at hm
    have hclean : Clean m := by
      intro b hb hc
      rcases hunc.mem b hb with h | rfl
      · exact removeFolds_no_control hun b h hc
      · cases hc
    simp only [Exec.pure_eq, hclosed.1, hclosed.2.1, hclosed.2.2, hm]
    rw [if_neg (by simp)]
    cases htext : fromUtf8 m with
    | none => exact ⟨none, rfl, by simp⟩
    | some mailbox =>
      obtain rfl := fromUtf8_eq_some.1 htext
      obtain ⟨w, w', houter, hw, hw'⟩ := trim_white hclean
      obtain ⟨o, ho, hacc⟩ := fromText_sound false false
        (hclean.mono (by rw [houter]; intro b hb; simp [hb]) : Clean (utf8 (trim mailbox)))
      exact ⟨o, ho, fun d hd => ⟨_, hunc, houter ▸ (hacc d hd).padded hw hw'⟩⟩

/-! ## One at sign -/

/-- The at signs outside quoted strings; the flag says whether the text starts inside one. -/
def bareAts : Bool → Bytes → Nat
  | _, [] => 0
  | true, [_] => 0
  | true, b :: c :: r => if b = BACKSLASH then bareAts true r else bareAts (b != DQUOTE) (c :: r)
  | false, b :: r => (if b = AT then 1 else 0) + bareAts (b == DQUOTE) r

theorem QText.bareAts {q : Bytes} (h : QText q) (r : Bytes) : bareAts true (q ++ r) = DkimLite.bareAts false r := by
  induction h with
  | close => cases r <;> simp [DkimLite.bareAts, DQUOTE, BACKSLASH]
  | pair b _ ih => simpa [DkimLite.bareAts] using ih
  | @other b q h1 h2 hq ih =>
    obtain ⟨c, q', rfl⟩ : ∃ c q', q = c :: q' := by cases hq <;> exact ⟨_, _, rfl⟩
    have hb : (b != DQUOTE) = true := by simpa using h1
    simpa [DkimLite.bareAts, hb, h2] using ih

/-- Neither an at sign nor a quote. -/
def Dull (p : Bytes) : Prop := ∀ b ∈ p, b ≠ AT ∧ b ≠ DQUOTE

theorem Dull.bareAts {p : Bytes} (h : Dull p) (r : Bytes) : bareAts false (p ++ r) = DkimLite.bareAts false r := by
  induction p with
  | nil => rfl
  | cons b p ih =>
    obtain ⟨h1, h2⟩ := h b (by simp)
    have hb : (b == DQUOTE) = false := by simpa using h2
    simpa [DkimLite.bareAts, h1, hb] using ih fun x hx => h x (by simp [hx])

theorem dull_of_atom {b : UInt8} (h : atomByte b = true) : b ≠ AT ∧ b ≠ DQUOTE := by
  constructor <;> rintro rfl <;> revert h <;> decide

theorem White.dull {w : Bytes} (h : White w) : Dull w := by
  obtain ⟨s, rfl, hs⟩ := h
  intro b hb
  obtain ⟨c, hc, hbc⟩ := List.mem_flatMap.1 hb
  by_cases hlt : c.toNat < 128
  · rcases (hs c hc).2 hlt with rfl | rfl <;> simp [String.utf8EncodeChar] at hbc <;> subst hbc <;> decide
  · have hhi := utf8_nonascii (by omega : 128 ≤ c.toNat) b hbc
    constructor <;> rintro rfl <;> revert hhi <;> decide

theorem Phrase.bareAts {p : Bytes} (h : Phrase p) (r : Bytes) : bareAts false (p ++ r) = DkimLite.bareAts false r := by
  induction h with
  | nil => rfl
  | @byte b p hb _ ih =>
    have hdull : b ≠ AT ∧ b ≠ DQUOTE := by
      rcases hb with h | rfl | h | h
      · exact dull_of_atom h
      · decide
      · constructor <;> rintro rfl <;> revert h <;> decide
      · constructor <;> rintro rfl <;> revert h <;> decide
    have hb' : (b == DQUOTE) = false := by simpa using hdull.2
    simpa [DkimLite.bareAts, hdull.1, hb'] using ih
  | @quoted q p hq _ ih =>
    have := hq.bareAts (p ++ r)
    rw [ih] at this
    simpa [DkimLite.bareAts, DQUOTE, AT] using this

theorem LocalPart.bareAts {l : Bytes} (h : LocalPart l) (r : Bytes) : bareAts false (l ++ r) = DkimLite.bareAts false r := by
  cases h with
  | quoted hq => simpa [DkimLite.bareAts, DQUOTE, AT] using hq.bareAts r
  | dotAtom hd =>
    obtain ⟨parts, -, hparts, rfl⟩ := hd
    refine Dull.bareAts (fun b hb => ?_) r
    rcases mem_intercalate hb with rfl | ⟨p, hp, hbp⟩
    · decide
    · exact dull_of_atom ((hparts p hp).2 b hbp)

theorem IsAddress.bareAts {a d : Bytes} (h : IsAddress White (DomainOf · d) a) {r : Bytes} (hr : DkimLite.bareAts false r = 0) :
    bareAts false (a ++ r) = 1 := by
  obtain ⟨loc, w, w', dom, hl, hw, hw', hd, rfl⟩ := h
  have hdom : Dull dom := by
    intro b hb
    have := hd.chars b hb
    constructor <;> rintro rfl <;> revert this <;> decide
  have hat : DkimLite.bareAts false (AT :: (w' ++ (dom ++ r))) = 1 + DkimLite.bareAts false (w' ++ (dom ++ r)) := by
    simp [DkimLite.bareAts, AT, DQUOTE]
  simp only [List.append_assoc, List.cons_append, hl.bareAts, hw.dull.bareAts, hat, hw'.dull.bareAts, hdom.bareAts, hr]

theorem MailboxOf.bareAts {d m : Bytes} (h : MailboxOf d m) : bareAts false m = 1 := by
  cases h with
  | bare hw ha hw' =>
    have h0 := hw'.dull.bareAts []
    rw [List.append_nil] at h0
    rw [List.append_assoc, hw.dull.bareAts, ha.bareAts (by rw [h0]; rfl)]
  | @angle w p v a v' w' hw hp hv ha hv' hw' =>
    have h0 := hw'.dull.bareAts []
    rw [List.append_nil] at h0
    have hopen : ∀ r, DkimLite.bareAts false (LANGLE :: r) = DkimLite.bareAts false r := by
      intro r; simp [DkimLite.bareAts, LANGLE, DQUOTE, AT]
    have hclose : DkimLite.bareAts false (v' ++ RANGLE :: w') = 0 := by
      rw [hv'.dull.bareAts]; simpa [DkimLite.bareAts, RANGLE, DQUOTE, AT] using h0
    rw [List.append_assoc, hw.dull.bareAts, hp.bareAts, hopen, List.append_assoc, List.append_assoc, hv.dull.bareAts,
      ha.bareAts hclose]

/-! ## Soundness -/

/-- **Only a single mailbox of the domain returned is accepted.** -/
theorem fromDomain_sound {value d : Bytes} (h : fromDomain value = .ok (some d)) :
    ∃ m, Uncomment (removeFolds value) m ∧ MailboxOf d m ∧ bareAts false m = 1 := by
  obtain ⟨o, ho, hacc⟩ := fromDomain_spec value
  rw [ho] at h
  obtain ⟨m, hm, hmail⟩ := hacc d (Exec.ok.inj h)
  exact ⟨m, hm, hmail, hmail.bareAts⟩

theorem fromDomain_sound_angle :
    ∃ m, Uncomment (removeFolds (ascii "Alice (team) <alice@Example.COM>")) m ∧ MailboxOf (ascii "example.com") m ∧
      bareAts false m = 1 :=
  fromDomain_sound (by decide +kernel)

/-- The domain text when at most one trailing dot may be dropped. -/
structure OneDotDomainOf (dom d : Bytes) : Prop where
  chars : ∀ b ∈ dom, isDomainByte b = true
  returned : d = lower dom ∨ ∃ dom', dom = dom' ++ [DOT] ∧ d = lower dom'

/-- A single mailbox with no white space but SP and TAB, and at most one trailing dot. -/
def Narrow (value d : Bytes) : Prop :=
  ∃ m, Uncomment (removeFolds value) m ∧ IsMailbox (fun w => ∀ b ∈ w, isWsp b = true) (OneDotDomainOf · d) m

/-- A value without comments, quotes and angle brackets ends with the domain and white space. -/
theorem Narrow.ends {value d : Bytes} (h : Narrow value d) (hd : d ≠ []) (hfolds : removeFolds value = value)
    (hplain : (value.all fun b => b != LPAREN && b != DQUOTE && b != LANGLE) = true) :
    ∃ pre dom w, value = pre ++ (dom ++ w) ∧ dom ≠ [] ∧ OneDotDomainOf dom d ∧ ∀ b ∈ w, isWsp b = true := by
  obtain ⟨m, hm, hmail⟩ := h
  have hbytes : ∀ b ∈ value, b ≠ LPAREN ∧ b ≠ DQUOTE ∧ b ≠ LANGLE := fun b hb => by
    simpa [and_assoc] using List.all_eq_true.1 hplain b hb
  rw [hfolds] at hm
  obtain rfl : m = value := hm.eq_self fun b hb => ⟨(hbytes b hb).1, (hbytes b hb).2.1⟩
  cases hmail with
  | angle => exact absurd rfl (hbytes LANGLE (by simp)).2.2
  | @bare w a w' hw ha hw' =>
    obtain ⟨loc, w₁, w₂, dom, -, -, -, hdom, rfl⟩ := ha
    refine ⟨w ++ (loc ++ w₁ ++ AT :: w₂), dom, w', by simp, ?_, hdom, hw'⟩
    rintro rfl
    rcases hdom.returned with h | ⟨dom', h, -⟩
    · exact hd h
    · simp at h

theorem two_dots_not_narrow : ¬ Narrow (ascii "a@b..") (ascii "b") := by
  intro h
  obtain ⟨pre, dom, w, hsplit, hne, hdom, hw⟩ := h.ends (by decide) (by decide) (by decide)
  have hlast : ∀ {l l' : Bytes} {b c : UInt8}, l ++ [b] = l' ++ [c] → l = l' ∧ b = c := by simp
  have hdot : ∀ x : Bytes, lower (x ++ [DOT]) ≠ ascii "b" := by
    intro x h
    have hend : (lower (x ++ [DOT])).getLast? = some DOT := by
      rw [lower, List.map_append, List.map_singleton, List.getLast?_concat]
      decide
    rw [h] at hend
    exact absurd hend (by decide)
  rw [(by decide : ascii "a@b.." = ([97, 64, 98] ++ [DOT]) ++ [DOT])] at hsplit
  rcases List.eq_nil_or_concat' w with rfl | ⟨w', c, rfl⟩
  · -- one of the two dots is of the domain that is returned
    obtain ⟨dom, c, rfl⟩ := (List.eq_nil_or_concat' dom).resolve_left hne
    rw [List.append_nil, ← List.append_assoc] at hsplit
    obtain ⟨hpre, rfl⟩ := hlast hsplit
    rcases hdom.returned with h | ⟨dom', h, hlower⟩
    · exact hdot dom h.symm
    · obtain ⟨rfl, -⟩ := hlast h
      rcases List.eq_nil_or_concat' dom with rfl | ⟨x, c, rfl⟩
      · exact absurd hlower (by decide)
      · rw [← List.append_assoc] at hpre
        obtain ⟨-, rfl⟩ := hlast hpre
        exact hdot x hlower.symm
  · rw [← List.append_assoc, ← List.append_assoc] at hsplit
    obtain ⟨-, rfl⟩ := hlast hsplit
    exact absurd (hw DOT (by simp)) (by decide)

theorem unicode_white_not_narrow : ¬ Narrow (ascii "a@b" ++ [0xC2, 0xA0]) (ascii "b") := by
  intro h
  obtain ⟨pre, dom, w, hsplit, hne, hdom, hw⟩ := h.ends (by decide) (by decide) (by decide)
  have hend : (dom ++ w).getLast? = some 0xA0 := by
    rw [← List.getLast?_append_of_ne_nil pre (by simp [hne]), ← hsplit]
    decide
  rcases List.mem_append.1 (List.mem_of_getLast? hend) with hmem | hmem
  · exact absurd (hdom.chars _ hmem) (by decide)
  · exact absurd (hw _ hmem) (by decide)

/-- Every trailing dot is dropped, not only one, and white space outside ASCII too: neither value is of the
narrower form. -/
theorem two_dots_accepted :
    (fromDomain (ascii "a@b..") = .ok (some (ascii "b")) ∧ ¬ Narrow (ascii "a@b..") (ascii "b")) ∧
      fromDomain (ascii "a@b" ++ [0xC2, 0xA0]) = .ok (some (ascii "b")) ∧
        ¬ Narrow (ascii "a@b" ++ [0xC2, 0xA0]) (ascii "b") :=
  ⟨⟨by decide +kernel, two_dots_not_narrow⟩, by decide +kernel, unicode_white_not_narrow⟩

end DkimLite
