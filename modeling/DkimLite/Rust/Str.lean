import DkimLite.Rust.Bytes
import Mathlib.Data.List.DropRight

/-!
# Rust strings

A `&str` is the list of its characters; its bytes are their UTF-8 encodings. Offsets into a
string are *byte* offsets, and slicing at an offset that is not a character boundary (or is
past the end) panics: `splitAtByte` is that check. `trim` and `trim_end_matches` work on
characters, with Unicode `White_Space` as `char::is_whitespace` has it.

The fact the scanners of a byte-indexed string rest on is `utf8_split`: a byte below 128 in
the UTF-8 form of a string *is* a character, so both sides of it are boundaries.
-/

namespace Rust

/-- `str::as_bytes` -/
def utf8 (s : List Char) : Bytes := s.flatMap String.utf8EncodeChar

/-- `str::from_utf8(bs).ok()` -/
def fromUtf8 (bs : Bytes) : Option (List Char) := bs.toByteArray.utf8Decode?.map Array.toList

@[simp] theorem utf8_nil : utf8 [] = [] := rfl
@[simp] theorem utf8_cons (c : Char) (s : List Char) : utf8 (c :: s) = String.utf8EncodeChar c ++ utf8 s := by
  simp [utf8]
@[simp] theorem utf8_append (s t : List Char) : utf8 (s ++ t) = utf8 s ++ utf8 t := by simp [utf8]

theorem fromUtf8_utf8 (s : List Char) : fromUtf8 (utf8 s) = some s := by
  have h : (utf8 s).toByteArray = s.utf8Encode := rfl
  simp [fromUtf8, h]

theorem toByteArray_injective {a b : Bytes} (h : a.toByteArray = b.toByteArray) : a = b := by
  have := congrArg (fun x : ByteArray => x.data.toList) h
  simpa using this

theorem fromUtf8_eq_some {bs : Bytes} {s : List Char} : fromUtf8 bs = some s ↔ bs = utf8 s := by
  constructor
  · intro h
    have hv : bs.toByteArray.utf8Decode?.isSome = true := by
      cases hd : bs.toByteArray.utf8Decode? with
      | none => simp [fromUtf8, hd] at h
      | some _ => rfl
    obtain ⟨m, hm⟩ := ByteArray.isSome_utf8Decode?_iff.1 hv
    have hb : bs = utf8 m := toByteArray_injective hm
    rw [hb, fromUtf8_utf8] at h
    rw [hb, Option.some.inj h]
  · rintro rfl; exact fromUtf8_utf8 s

theorem utf8_injective {s t : List Char} (h : utf8 s = utf8 t) : s = t := by
  have := fromUtf8_utf8 s
  rw [h, fromUtf8_utf8] at this
  exact (Option.some.inj this).symm

/-! ## ASCII characters -/

theorem utf8_ascii {c : Char} (h : c.toNat < 128) : String.utf8EncodeChar c = [UInt8.ofNat c.toNat] := by
  have h' : c.val.toNat ≤ 127 := Nat.lt_succ_iff.1 h
  simp only [String.utf8EncodeChar, h', if_true]
  rfl

theorem utf8_nonascii {c : Char} (h : 128 ≤ c.toNat) : ∀ b ∈ String.utf8EncodeChar c, 128 ≤ b.toNat := by
  have h' : ¬ c.val.toNat ≤ 127 := Nat.not_le.2 h
  intro b hb
  simp only [String.utf8EncodeChar, h', if_false] at hb
  split at hb
  · simp only [List.mem_cons, List.not_mem_nil, or_false] at hb
    rcases hb with rfl | rfl <;> simp only [UInt8.toNat_ofNat'] <;> omega
  · split at hb
    · simp only [List.mem_cons, List.not_mem_nil, or_false] at hb
      rcases hb with rfl | rfl | rfl <;> simp only [UInt8.toNat_ofNat'] <;> omega
    · simp only [List.mem_cons, List.not_mem_nil, or_false] at hb
      rcases hb with rfl | rfl | rfl | rfl <;> simp only [UInt8.toNat_ofNat'] <;> omega

/-- The character of an ASCII byte. -/
def asciiChar (b : UInt8) : Char := Char.ofNat b.toNat

theorem asciiChar_toNat {b : UInt8} (h : b.toNat < 128) : (asciiChar b).toNat = b.toNat := by
  have hv : Nat.isValidChar b.toNat := Or.inl (by omega)
  rw [asciiChar, Char.ofNat, dif_pos hv]
  exact UInt32.toNat_ofNatLT

theorem utf8_asciiChar {b : UInt8} (h : b.toNat < 128) : String.utf8EncodeChar (asciiChar b) = [b] := by
  rw [utf8_ascii (by rw [asciiChar_toNat h]; exact h), asciiChar_toNat h]
  simp

theorem char_eq_asciiChar {c : Char} (h : c.toNat < 128) : c = asciiChar (UInt8.ofNat c.toNat) := by
  have : (UInt8.ofNat c.toNat).toNat = c.toNat := by simp only [UInt8.toNat_ofNat']; omega
  simp [asciiChar, this]

/-- `str::to_ascii_lowercase` -/
def toAsciiLowercase (s : List Char) : List Char := s.map Char.toLower

theorem toLower_asciiChar (b : UInt8) : b.toNat < 128 → (asciiChar b).toLower = asciiChar (asciiLower b) ∧ (asciiLower b).toNat < 128 := by
  revert b
  exact forall_uint8 (by decide +kernel)

theorem asciiLower_nonascii (b : UInt8) : 128 ≤ b.toNat → asciiLower b = b := by
  revert b
  exact forall_uint8 (by decide +kernel)

theorem toLower_nonascii {c : Char} (h : 128 ≤ c.toNat) : c.toLower = c := by
  unfold Char.toLower
  rw [dif_neg]
  rintro ⟨-, hz⟩
  have hz : c.toNat ≤ 90 := hz
  omega

theorem utf8_toAsciiLowercase (s : List Char) : utf8 (toAsciiLowercase s) = lower (utf8 s) := by
  induction s with
  | nil => rfl
  | cons c s ih =>
    have hone : String.utf8EncodeChar c.toLower = lower (String.utf8EncodeChar c) := by
      by_cases hc : c.toNat < 128
      · have hbyte : (UInt8.ofNat c.toNat).toNat < 128 := by
          rw [UInt8.toNat_ofNat']
          omega
        obtain ⟨hlower, hascii⟩ := toLower_asciiChar _ hbyte
        rw [char_eq_asciiChar hc, hlower, utf8_asciiChar hascii, utf8_asciiChar hbyte]
        rfl
      · have hc := Nat.not_lt.1 hc
        rw [toLower_nonascii hc]
        have hsame : lower (String.utf8EncodeChar c) = (String.utf8EncodeChar c).map id :=
          List.map_congr_left fun b hb => asciiLower_nonascii b (utf8_nonascii hc b hb)
        rw [hsame, List.map_id]
    calc utf8 (toAsciiLowercase (c :: s)) = String.utf8EncodeChar c.toLower ++ utf8 (toAsciiLowercase s) := utf8_cons _ _
      _ = lower (String.utf8EncodeChar c) ++ lower (utf8 s) := by rw [hone, ih]
      _ = lower (utf8 (c :: s)) := by rw [utf8_cons, lower, lower, lower, List.map_append]

/-- **An ASCII byte of a string is a character of it.** -/
theorem utf8_split {b : UInt8} (hb : b.toNat < 128) : ∀ {s : List Char} {L R : Bytes}, utf8 s = L ++ b :: R →
    ∃ l r, s = l ++ asciiChar b :: r ∧ utf8 l = L ∧ utf8 r = R
  | [], L, R, h => by simp at h
  | c :: s, L, R, h => by
    rw [utf8_cons] at h
    by_cases hc : c.toNat < 128
    · rw [utf8_ascii hc] at h
      cases L with
      | nil =>
        simp only [List.cons_append, List.nil_append, List.cons.injEq] at h
        exact ⟨[], s, by rw [← h.1, ← char_eq_asciiChar hc]; rfl, rfl, h.2⟩
      | cons x L =>
        simp only [List.cons_append, List.nil_append, List.cons.injEq] at h
        obtain ⟨l, r, rfl, hl, hr⟩ := utf8_split hb h.2
        exact ⟨c :: l, r, rfl, by rw [utf8_cons, utf8_ascii hc, hl, h.1]; rfl, hr⟩
    · -- a longer encoding holds no ASCII byte, so it lies inside `L`
      have hhi := utf8_nonascii (by omega : 128 ≤ c.toNat)
      obtain ⟨as, h1, h2⟩ | ⟨bs, h1, h2⟩ := List.append_eq_append_iff.1 h
      · obtain ⟨l, r, rfl, hl, hr⟩ := utf8_split hb h2
        exact ⟨c :: l, r, rfl, by rw [utf8_cons, hl, h1], hr⟩
      · cases bs with
        | nil =>
          simp only [List.append_nil, List.nil_append] at h1 h2
          obtain ⟨l, r, rfl, hl, hr⟩ := utf8_split (L := []) hb h2.symm
          exact ⟨c :: l, r, rfl, by rw [utf8_cons, hl, h1, List.append_nil], hr⟩
        | cons x bs =>
          simp only [List.cons_append, List.cons.injEq] at h2
          have := hhi b (by rw [h1, ← h2.1]; simp)
          omega

/-- The same by position: both sides of the byte are slices of the string. -/
theorem utf8_index {b : UInt8} (hb : b.toNat < 128) {s : List Char} {k : Nat} (h : (utf8 s)[k]? = some b) :
    ∃ l r, s = l ++ asciiChar b :: r ∧ (utf8 l).length = k := by
  obtain ⟨hk, hget⟩ := List.getElem?_eq_some_iff.1 h
  have hsplit : utf8 s = (utf8 s).take k ++ b :: (utf8 s).drop (k + 1) := by
    rw [← hget, ← List.drop_eq_getElem_cons hk, List.take_append_drop]
  obtain ⟨l, r, hs, hl, -⟩ := utf8_split hb hsplit
  exact ⟨l, r, hs, by rw [hl, List.length_take]; omega⟩

theorem fromUtf8_ascii {bs : Bytes} (h : ∀ b ∈ bs, b.toNat < 128) : fromUtf8 bs = some (bs.map asciiChar) := by
  rw [fromUtf8_eq_some]
  induction bs with
  | nil => rfl
  | cons b bs ih =>
    rw [List.map_cons, utf8_cons, utf8_asciiChar (h b (by simp)), ← ih fun x hx => h x (by simp [hx])]
    rfl

/-! ## Slicing by byte offset -/

/-- `(&s[..i], &s[i..])`; panics unless `i` is a character boundary of `s`. -/
def splitAtByte : List Char → Nat → Exec (List Char × List Char)
  | s, 0 => .ok ([], s)
  | [], _ + 1 => .panic
  | c :: s, i + 1 =>
    if c.utf8Size ≤ i + 1 then do
      let (l, r) ← splitAtByte s (i + 1 - c.utf8Size)
      .ok (c :: l, r)
    else .panic

/-- `&s[i..]` -/
def strFrom (s : List Char) (i : Nat) : Exec (List Char) := do
  let (_, r) ← splitAtByte s i
  .ok r

/-- `&s[..i]` -/
def strTo (s : List Char) (i : Nat) : Exec (List Char) := do
  let (l, _) ← splitAtByte s i
  .ok l

/-- `&s[i..j]` -/
def strSlice (s : List Char) (i j : Nat) : Exec (List Char) := do
  let l ← strTo s j
  strFrom l i

theorem splitAtByte_append : ∀ (l r : List Char), splitAtByte (l ++ r) (utf8 l).length = .ok (l, r)
  | [], r => by cases r <;> rfl
  | c :: l, r => by
    have hpos := c.utf8Size_pos
    have hlen : (utf8 (c :: l)).length = c.utf8Size + (utf8 l).length := by simp
    obtain ⟨n, hn⟩ : ∃ n, (utf8 (c :: l)).length = n + 1 := ⟨_, (Nat.succ_pred_eq_of_pos (by omega)).symm⟩
    rw [hn, List.cons_append, splitAtByte, if_pos (by omega),
      show n + 1 - c.utf8Size = (utf8 l).length by omega, splitAtByte_append l r]
    rfl

theorem strFrom_append (l r : List Char) : strFrom (l ++ r) (utf8 l).length = .ok r := by
  simp [strFrom, splitAtByte_append]

theorem strTo_append (l r : List Char) : strTo (l ++ r) (utf8 l).length = .ok l := by
  simp [strTo, splitAtByte_append]

theorem strSlice_append (l m r : List Char) :
    strSlice (l ++ m ++ r) (utf8 l).length (utf8 (l ++ m)).length = .ok m := by
  simp only [strSlice, strTo_append, Exec.ok_bind, strFrom_append]

/-- Slicing on both sides of an ASCII character. -/
theorem strTo_char (l r : List Char) (c : Char) : strTo (l ++ c :: r) (utf8 l).length = .ok l :=
  strTo_append l (c :: r)

theorem strFrom_char {b : UInt8} (hb : b.toNat < 128) (l r : List Char) :
    strFrom (l ++ asciiChar b :: r) ((utf8 l).length + 1) = .ok r := by
  have := strFrom_append (l ++ [asciiChar b]) r
  simpa [utf8_asciiChar hb] using this

/-! ## Trimming -/

/-- `char::is_whitespace`: the Unicode `White_Space` property. -/
def isWhitespace (c : Char) : Bool :=
  let n := c.toNat
  (9 ≤ n && n ≤ 13) || n == 0x20 || n == 0x85 || n == 0xA0 || n == 0x1680 ||
    (0x2000 ≤ n && n ≤ 0x200A) || n == 0x2028 || n == 0x2029 || n == 0x202F || n == 0x205F || n == 0x3000

/-- `str::trim` -/
def trim (s : List Char) : List Char := (s.dropWhile isWhitespace).rdropWhile isWhitespace

/-- `s.trim_end_matches(c)` -/
def trimEndMatches (c : Char) (s : List Char) : List Char := s.rdropWhile (· == c)

/-- `trim` removes white space at both ends and nothing else. -/
theorem trim_decomp (s : List Char) : ∃ w₁ w₂ : List Char, s = w₁ ++ trim s ++ w₂ ∧
    (∀ c ∈ w₁, isWhitespace c = true) ∧ (∀ c ∈ w₂, isWhitespace c = true) := by
  refine ⟨s.takeWhile isWhitespace, (s.dropWhile isWhitespace).rtakeWhile isWhitespace, ?_, ?_, ?_⟩
  · rw [trim, List.append_assoc, List.rdropWhile_append_rtakeWhile, List.takeWhile_append_dropWhile]
  · exact fun c hc => List.mem_takeWhile_imp hc
  · exact fun c hc => List.mem_rtakeWhile_imp hc

theorem trimEndMatches_decomp (c : Char) (s : List Char) :
    ∃ n, s = trimEndMatches c s ++ List.replicate n c := by
  refine ⟨(s.rtakeWhile (· == c)).length, ?_⟩
  have hall : s.rtakeWhile (· == c) = List.replicate (s.rtakeWhile (· == c)).length c :=
    List.eq_replicate_of_mem fun x hx => by simpa using List.mem_rtakeWhile_imp hx
  rw [← hall, trimEndMatches, List.rdropWhile_append_rtakeWhile]

/-- Trimming an ASCII character off the end is trimming its byte. -/
theorem utf8_trimEndMatches {b : UInt8} (hb : b.toNat < 128) (s : List Char) :
    utf8 (trimEndMatches (asciiChar b) s) = (utf8 s).rdropWhile (· == b) := by
  induction s using List.reverseRecOn with
  | nil => rfl
  | append_singleton s c ih =>
    by_cases hc : c = asciiChar b
    · subst hc
      rw [trimEndMatches, List.rdropWhile_concat_pos _ _ _ (by simp), ← trimEndMatches, ih, utf8_append,
        utf8_cons, utf8_asciiChar hb, utf8_nil, List.append_nil, List.rdropWhile_concat_pos _ _ _ (by simp)]
    · have hlast : ∀ x ∈ String.utf8EncodeChar c, x ≠ b := by
        rintro x hx rfl
        by_cases hcl : c.toNat < 128
        · rw [utf8_ascii hcl, List.mem_singleton] at hx
          exact hc (hx ▸ char_eq_asciiChar hcl)
        · have := utf8_nonascii (by omega) x hx
          omega
      obtain ⟨bs, x, hx⟩ : ∃ bs x, String.utf8EncodeChar c = bs ++ [x] :=
        ⟨_, _, (List.dropLast_append_getLast (by simp)).symm⟩
      have hxb : ¬ (x == b) = true := by simpa using hlast x (by simp [hx])
      rw [trimEndMatches, List.rdropWhile_concat_neg _ _ _ (by simpa using hc), utf8_append, utf8_cons, utf8_nil,
        List.append_nil, hx, ← List.append_assoc, List.rdropWhile_concat_neg (· == b) _ _ hxb]

/-! ## Cutting a string -/

/-- `s.split_once(c)` -/
def splitOnce (c : Char) : List Char → Option (List Char × List Char)
  | [] => none
  | d :: s => if d = c then some ([], s) else (splitOnce c s).map fun p => (d :: p.1, p.2)

theorem splitOnce_eq_some {c : Char} : ∀ {s l r : List Char}, splitOnce c s = some (l, r) ↔ s = l ++ c :: r ∧ c ∉ l
  | [], l, r => by simp [splitOnce]
  | d :: s, l, r => by
    by_cases hd : d = c
    · subst hd
      cases l <;> simp [splitOnce, eq_comm]
      intro h
      simp [h]
    · cases l with
      | nil => simp [splitOnce, hd]
      | cons x l =>
        have ih := splitOnce_eq_some (c := c) (s := s) (l := l) (r := r)
        simp only [splitOnce, hd, if_false, Option.map_eq_some_iff, Prod.mk.injEq, List.cons.injEq, Prod.exists,
          List.cons_append, List.mem_cons, not_or]
        constructor
        · rintro ⟨l', r', h, ⟨rfl, rfl⟩, rfl⟩
          obtain ⟨rfl, hc⟩ := ih.1 h
          exact ⟨⟨rfl, rfl⟩, Ne.symm hd, hc⟩
        · rintro ⟨⟨rfl, rfl⟩, -, hc⟩
          exact ⟨l, r, ih.2 ⟨rfl, hc⟩, ⟨rfl, rfl⟩, rfl⟩

/-- A line without the CR of a CRLF. -/
def stripCr (s : List Char) : List Char := if s.getLast? = some '\r' then s.dropLast else s

/-- `str::lines`: the LF ends a line, with the CR before it; nothing after the last LF is no line. -/
def lines (s : List Char) : List (List Char) :=
  let pieces := s.splitOn '\n'
  let last := pieces.getLast?.getD []
  pieces.dropLast.map stripCr ++ if last.isEmpty then [] else [last]

example : lines "a\r\n\nb\r".toList = ["a".toList, [], "b\r".toList] := by decide

end Rust
