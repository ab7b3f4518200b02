import DkimLite.Rust.Bytes

/-!
# Base64

The encoding of RFC 4648 section 4, with padding and without line breaks, and its decoding.
-/

namespace Text
open Rust

/-- A character of the base64 alphabet, or the padding. -/
def isBase64Byte (b : UInt8) : Bool := isAsciiAlphanumeric b || b == 43 || b == 47 || b == 61

/-- The character of a 6-bit group. -/
def base64Char (n : Nat) : UInt8 :=
  if n < 26 then UInt8.ofNat (65 + n)
  else if n < 52 then UInt8.ofNat (97 + (n - 26))
  else if n < 62 then UInt8.ofNat (48 + (n - 52))
  else if n = 62 then 43
  else 47

def base64 : Bytes → Bytes
  | [] => []
  | [a] => [base64Char (a.toNat / 4), base64Char (a.toNat % 4 * 16), 61, 61]
  | [a, b] =>
    [base64Char (a.toNat / 4), base64Char (a.toNat % 4 * 16 + b.toNat / 16), base64Char (b.toNat % 16 * 4), 61]
  | a :: b :: c :: r =>
    base64Char (a.toNat / 4) :: base64Char (a.toNat % 4 * 16 + b.toNat / 16) ::
      base64Char (b.toNat % 16 * 4 + c.toNat / 64) :: base64Char (c.toNat % 64) :: base64 r

theorem base64Char_ok (n : Nat) : isBase64Byte (base64Char n) = true := by
  by_cases h : n < 63
  · have hall : ∀ m : Fin 63, isBase64Byte (base64Char m) = true := by decide +kernel
    exact hall ⟨n, h⟩
  · have : base64Char n = 47 := by
      rw [base64Char, if_neg (by omega), if_neg (by omega), if_neg (by omega), if_neg (by omega)]
    rw [this]
    rfl

/-- The output is of the alphabet. -/
theorem base64_alphabet : ∀ bs : Bytes, ∀ b ∈ base64 bs, isBase64Byte b = true
  | [], b, hb => by cases hb
  | [_], b, hb => by
    simp only [base64, List.mem_cons, List.not_mem_nil, or_false] at hb
    rcases hb with rfl | rfl | rfl | rfl <;> first | exact base64Char_ok _ | rfl
  | [_, _], b, hb => by
    simp only [base64, List.mem_cons, List.not_mem_nil, or_false] at hb
    rcases hb with rfl | rfl | rfl | rfl <;> first | exact base64Char_ok _ | rfl
  | _ :: _ :: _ :: r, b, hb => by
    simp only [base64, List.mem_cons] at hb
    rcases hb with rfl | rfl | rfl | rfl | hb
    · exact base64Char_ok _
    · exact base64Char_ok _
    · exact base64Char_ok _
    · exact base64Char_ok _
    · exact base64_alphabet r b hb

theorem length_base64 : ∀ bs : Bytes, (base64 bs).length = 4 * ((bs.length + 2) / 3)
  | [] => rfl
  | [_] => by simp [base64]
  | [_, _] => by simp [base64]
  | _ :: _ :: _ :: r => by
    simp only [base64, List.length_cons, length_base64 r]
    omega

example : base64 (ascii "foobar") = ascii "Zm9vYmFy" ∧ base64 (ascii "fooba") = ascii "Zm9vYmE=" := by decide

/-! ## Decoding -/

/-- The 6-bit group of a character. -/
def base64Value (b : UInt8) : Option Nat :=
  if isAsciiUpper b then some (b.toNat - 65)
  else if isAsciiLower b then some (b.toNat - 97 + 26)
  else if isAsciiDigit b then some (b.toNat - 48 + 52)
  else if b = 43 then some 62
  else if b = 47 then some 63
  else none

/-- Groups of four characters; only the last one is padded. -/
def base64Decode : Bytes → Option Bytes
  | [] => some []
  | a :: b :: c :: d :: r => do
    let w ← base64Value a
    let x ← base64Value b
    if r = [] ∧ c = 61 ∧ d = 61 then return [UInt8.ofNat (w * 4 + x / 16)]
    let y ← base64Value c
    if r = [] ∧ d = 61 then return [UInt8.ofNat (w * 4 + x / 16), UInt8.ofNat (x % 16 * 16 + y / 4)]
    let z ← base64Value d
    let rest ← base64Decode r
    return UInt8.ofNat (w * 4 + x / 16) :: UInt8.ofNat (x % 16 * 16 + y / 4) :: UInt8.ofNat (y % 4 * 64 + z) :: rest
  | _ => none

theorem base64Value_char {n : Nat} (h : n < 64) : base64Value (base64Char n) = some n ∧ base64Char n ≠ 61 := by
  have hall : ∀ m : Fin 64, base64Value (base64Char m) = some (m : Nat) ∧ base64Char m ≠ 61 := by decide +kernel
  exact hall ⟨n, h⟩

theorem ofNat_of_eq {n : Nat} {b : UInt8} (h : n = b.toNat) : UInt8.ofNat n = b := by rw [h, UInt8.ofNat_toNat]

/-- **Decoding gives the input back.** -/
theorem base64Decode_base64 : ∀ bs : Bytes, base64Decode (base64 bs) = some bs
  | [] => rfl
  | [a] => by
    have ha := a.toNat_lt
    have hw := base64Value_char (n := a.toNat / 4) (by omega)
    have hx := base64Value_char (n := a.toNat % 4 * 16) (by omega)
    have hbyte : UInt8.ofNat (a.toNat / 4 * 4 + a.toNat % 4 * 16 / 16) = a := ofNat_of_eq (by omega)
    simp only [base64, base64Decode, hw.1, hx.1, hbyte, Option.bind_eq_bind, Option.bind_some, and_self, if_true]
    rfl
  | [a, b] => by
    have ha := a.toNat_lt
    have hb := b.toNat_lt
    have hw := base64Value_char (n := a.toNat / 4) (by omega)
    have hx := base64Value_char (n := a.toNat % 4 * 16 + b.toNat / 16) (by omega)
    have hy := base64Value_char (n := b.toNat % 16 * 4) (by omega)
    have hbyte : UInt8.ofNat (a.toNat / 4 * 4 + (a.toNat % 4 * 16 + b.toNat / 16) / 16) = a := ofNat_of_eq (by omega)
    have hbyte' : UInt8.ofNat ((a.toNat % 4 * 16 + b.toNat / 16) % 16 * 16 + b.toNat % 16 * 4 / 4) = b :=
      ofNat_of_eq (by omega)
    simp only [base64, base64Decode, hw.1, hx.1, hy.1, hy.2, hbyte, hbyte', Option.bind_eq_bind, Option.bind_some,
      false_and, and_false, and_self, if_false, if_true]
    rfl
  | a :: b :: c :: r => by
    have ha := a.toNat_lt
    have hb := b.toNat_lt
    have hc := c.toNat_lt
    have hw := base64Value_char (n := a.toNat / 4) (by omega)
    have hx := base64Value_char (n := a.toNat % 4 * 16 + b.toNat / 16) (by omega)
    have hy := base64Value_char (n := b.toNat % 16 * 4 + c.toNat / 64) (by omega)
    have hz := base64Value_char (n := c.toNat % 64) (by omega)
    have hbyte : UInt8.ofNat (a.toNat / 4 * 4 + (a.toNat % 4 * 16 + b.toNat / 16) / 16) = a := ofNat_of_eq (by omega)
    have hbyte' : UInt8.ofNat ((a.toNat % 4 * 16 + b.toNat / 16) % 16 * 16 + (b.toNat % 16 * 4 + c.toNat / 64) / 4) = b :=
      ofNat_of_eq (by omega)
    have hbyte'' : UInt8.ofNat ((b.toNat % 16 * 4 + c.toNat / 64) % 4 * 64 + c.toNat % 64) = c := ofNat_of_eq (by omega)
    simp only [base64, base64Decode, hw.1, hx.1, hy.1, hz.1, hz.2, base64Decode_base64 r, hbyte, hbyte', hbyte'',
      Option.bind_eq_bind, Option.bind_some, and_false, if_false]
    rfl

end Text
