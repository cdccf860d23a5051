/-
  `\u` escapes: `parse_hex4` and `utf16_literal_to_utf8`.

  * `hexCode`: the number that hexadecimal digits denote. `parseHex4` is 0 where they are no
    digits, which is not an error to its caller.
  * `encodeUtf8`: the second half of `utf16_literal_to_utf8`. The bytes are written from the
    last one on, each taking six bits off the code point.
  * `utf16LiteralToUtf8`: the bytes written and the length of the sequence, one `\u` or two.

  `encodeUtf8_char`: a code point is encoded as UTF-8 encodes it. So the escape of a character, of
  one or two code units, is decoded to its UTF-8 (`utf16_basic`, `utf16_pair`), and nothing is ever
  decoded to anything but the UTF-8 of some character (`utf16_sound`).
-/
import OlegPrinter.Lib.Bytes
import Mathlib.Data.Nat.Bitwise

namespace OlegPrinter

open CLib

/-- `'\\'`. -/
def backslash : UInt8 := 0x5c

/-- A hexadecimal digit. -/
def hexValue (b : UInt8) : Option Nat :=
  if 0x30 ≤ b ∧ b ≤ 0x39 then some (b.toNat - 0x30)
  else if 0x41 ≤ b ∧ b ≤ 0x46 then some (10 + b.toNat - 0x41)
  else if 0x61 ≤ b ∧ b ≤ 0x66 then some (10 + b.toNat - 0x61)
  else none

/-- The number that the digits denote. -/
def hexCode (digits : List UInt8) : Option Nat :=
  digits.foldlM (fun h b => (hexValue b).map (h * 16 + ·)) 0

/-- `parse_hex4`. -/
def parseHex4 (input : List UInt8) : Nat := (hexCode (input.take 4)).getD 0

/-- The loop that writes the bytes behind the first, and what it leaves of the code point. -/
def encodeTail : ℕ → Nat → List UInt8 → Nat × List UInt8
  | 0, codepoint, output => (codepoint, output)
  | position + 1, codepoint, output =>
    encodeTail position (codepoint >>> 6) (UInt8.ofNat ((codepoint ||| 0x80) &&& 0xBF) :: output)

/-- All bytes: `length` of them, the first one marked. -/
def encodeWith (length firstByteMark codepoint : Nat) : List UInt8 :=
  let (codepoint, output) := encodeTail (length - 1) codepoint []
  if 1 < length then UInt8.ofNat ((codepoint ||| firstByteMark) &&& 0xFF) :: output
  else UInt8.ofNat (codepoint &&& 0x7F) :: output

/-- From `codepoint < 0x80` on. -/
def encodeUtf8 (codepoint : Nat) : Option (List UInt8) :=
  if codepoint < 0x80 then some (encodeWith 1 0 codepoint)
  else if codepoint < 0x800 then some (encodeWith 2 0xC0 codepoint)
  else if codepoint < 0x10000 then some (encodeWith 3 0xE0 codepoint)
  else if codepoint ≤ 0x10FFFF then some (encodeWith 4 0xF0 codepoint)
  else none

/-- The code point of a surrogate pair. -/
def pairCodepoint (firstCode secondCode : Nat) : Nat :=
  0x10000 + (((firstCode &&& 0x3FF) <<< 10) ||| (secondCode &&& 0x3FF))

/-- `utf16_literal_to_utf8`, of the bytes up to `input_end`. -/
def utf16LiteralToUtf8 (input : List UInt8) : Option (List UInt8 × Nat) :=
  if input.length < 6 then none
  else
    let firstCode := parseHex4 (input.drop 2)
    if 0xDC00 ≤ firstCode ∧ firstCode ≤ 0xDFFF then none
    else if 0xD800 ≤ firstCode ∧ firstCode ≤ 0xDBFF then
      let secondSequence := input.drop 6
      if secondSequence.length < 6 then none
      else if secondSequence[0]? ≠ some backslash ∨ secondSequence[1]? ≠ some 0x75 then none
      else
        let secondCode := parseHex4 (secondSequence.drop 2)
        if secondCode < 0xDC00 ∨ 0xDFFF < secondCode then none
        else (encodeUtf8 (pairCodepoint firstCode secondCode)).map (·, 12)
    else (encodeUtf8 firstCode).map (·, 6)

/-! ## UTF-8 -/

/-- The low six bits behind the mark of a continuation byte. -/
theorem continuation_bits (c : Nat) : (c ||| 0x80) &&& 0xBF = c % 0x40 + 0x80 := by
  have hlow : ∀ x < 256, (x ||| 0x80) &&& 0xBF = x % 0x40 + 0x80 := by decide +kernel
  have hbits : (c ||| 0x80) &&& 0xBF = (c % 256 ||| 0x80) &&& 0xBF := by
    have hc : (c ||| 0x80) % 2 ^ 8 = c % 2 ^ 8 ||| 0x80 % 2 ^ 8 := Nat.or_mod_two_pow
    have hsmall : (c ||| 0x80) &&& 0xBF < 2 ^ 8 := Nat.and_lt_two_pow _ (by decide)
    rw [← Nat.mod_eq_of_lt hsmall, Nat.and_mod_two_pow, hc]
    rfl
  rw [hbits, hlow _ (Nat.mod_lt _ (by decide))]
  omega

theorem first_byte_two : ∀ c < 0x20, (c ||| 0xC0) &&& 0xFF = c + 0xC0 := by decide

theorem first_byte_three : ∀ c < 0x10, (c ||| 0xE0) &&& 0xFF = c + 0xE0 := by decide

theorem first_byte_four : ∀ c < 0x08, (c ||| 0xF0) &&& 0xFF = c + 0xF0 := by decide

theorem encodeTail_succ (n c : Nat) (output : List UInt8) :
    encodeTail (n + 1) c output =
      encodeTail n (c / 64) (UInt8.ofNat (c % 0x40 + 0x80) :: output) := by
  rw [encodeTail, continuation_bits, Nat.shiftRight_eq_div_pow]

theorem encodeWith_one {c : Nat} (h : c < 0x80) : encodeWith 1 0 c = [UInt8.ofNat c] := by
  have hmask : c &&& 0x7F = c := by
    rw [Nat.and_two_pow_sub_one_eq_mod _ 7, Nat.mod_eq_of_lt h]
  rw [encodeWith, encodeTail]
  dsimp only
  rw [if_neg (by decide), hmask]

theorem encodeWith_two {c : Nat} (h : c < 0x800) :
    encodeWith 2 0xC0 c = [UInt8.ofNat (c / 64 + 0xC0), UInt8.ofNat (c % 0x40 + 0x80)] := by
  rw [encodeWith, encodeTail_succ, encodeTail]
  dsimp only
  rw [if_pos (by decide), first_byte_two _ (by omega)]

theorem encodeWith_three {c : Nat} (h : c < 0x10000) :
    encodeWith 3 0xE0 c = [UInt8.ofNat (c / 4096 + 0xE0), UInt8.ofNat (c / 64 % 0x40 + 0x80),
      UInt8.ofNat (c % 0x40 + 0x80)] := by
  have hdiv : c / 64 / 64 = c / 4096 := by rw [Nat.div_div_eq_div_mul]
  rw [encodeWith, encodeTail_succ, encodeTail_succ, encodeTail]
  dsimp only
  rw [if_pos (by decide), hdiv, first_byte_three _ (by omega)]

theorem encodeWith_four {c : Nat} (h : c < 0x200000) :
    encodeWith 4 0xF0 c = [UInt8.ofNat (c / 262144 + 0xF0), UInt8.ofNat (c / 4096 % 0x40 + 0x80),
      UInt8.ofNat (c / 64 % 0x40 + 0x80), UInt8.ofNat (c % 0x40 + 0x80)] := by
  have hdiv : c / 64 / 64 = c / 4096 := by rw [Nat.div_div_eq_div_mul]
  have hdiv' : c / 4096 / 64 = c / 262144 := by rw [Nat.div_div_eq_div_mul]
  rw [encodeWith, encodeTail_succ, encodeTail_succ, encodeTail_succ, encodeTail]
  dsimp only
  rw [if_pos (by decide), hdiv, hdiv', first_byte_four _ (by omega)]

theorem char_toNat_lt (c : Char) : c.toNat < 0x110000 := by
  have hvalid := c.valid
  unfold UInt32.isValidChar Nat.isValidChar at hvalid
  change c.val.toNat < _
  omega

theorem char_not_surrogate (c : Char) : c.toNat < 0xD800 ∨ 0xDFFF < c.toNat := by
  have hvalid := c.valid
  unfold UInt32.isValidChar Nat.isValidChar at hvalid
  change c.val.toNat < _ ∨ _ < c.val.toNat
  omega

/-- The encoding is UTF-8. -/
theorem encodeUtf8_char (c : Char) : encodeUtf8 c.toNat = some (String.utf8EncodeChar c) := by
  have hlt := char_toNat_lt c
  change encodeUtf8 c.val.toNat = _
  change c.val.toNat < _ at hlt
  unfold encodeUtf8 String.utf8EncodeChar
  dsimp only
  generalize c.val.toNat = n at hlt ⊢
  by_cases h1 : n < 0x80
  · have h1' : n ≤ 0x7f := by omega
    rw [if_pos h1, if_pos h1', encodeWith_one h1]
  have h1' : ¬ n ≤ 0x7f := by omega
  rw [if_neg h1, if_neg h1']
  by_cases h2 : n < 0x800
  · have h2' : n ≤ 0x7ff := by omega
    rw [if_pos h2, if_pos h2', encodeWith_two h2, Nat.mod_eq_of_lt (show n / 64 < 0x20 by omega)]
  have h2' : ¬ n ≤ 0x7ff := by omega
  rw [if_neg h2, if_neg h2']
  by_cases h3 : n < 0x10000
  · have h3' : n ≤ 0xffff := by omega
    rw [if_pos h3, if_pos h3', encodeWith_three h3, Nat.mod_eq_of_lt (show n / 4096 < 0x10 by omega)]
  have h3' : ¬ n ≤ 0xffff := by omega
  have h4 : n ≤ 0x10FFFF := by omega
  rw [if_neg h3, if_neg h3', if_pos h4, encodeWith_four (by omega),
    Nat.mod_eq_of_lt (show n / 262144 < 0x08 by omega)]

/-! ## Escapes of characters -/

/-- The bytes of `\u` and four digits. -/
def unicodeEscape (digits : List UInt8) : List UInt8 := backslash :: 0x75 :: digits

theorem parseHex4_digits {digits : List UInt8} {code : Nat} (hlength : digits.length = 4)
    (hcode : hexCode digits = some code) (rest : List UInt8) :
    parseHex4 (digits ++ rest) = code := by
  rw [parseHex4, List.take_append_of_le_length (by omega), List.take_of_length_le (by omega),
    hcode, Option.getD_some]

/-- A character of the basic plane, by its code. -/
theorem utf16_basic {c : Char} {digits : List UInt8} (hlength : digits.length = 4)
    (hcode : hexCode digits = some c.toNat) (rest : List UInt8) :
    utf16LiteralToUtf8 (unicodeEscape digits ++ rest) = some (String.utf8EncodeChar c, 6) := by
  have hdrop : (unicodeEscape digits ++ rest).drop 2 = digits ++ rest := rfl
  have hnot := char_not_surrogate c
  rw [utf16LiteralToUtf8, if_neg (by simp [unicodeEscape, hlength]), hdrop,
    parseHex4_digits hlength hcode]
  dsimp only
  rw [if_neg (by omega), if_neg (by omega), encodeUtf8_char]
  rfl

/-- The code point of the two halves of a character above the basic plane. -/
theorem pairCodepoint_halves {n : Nat} (hlow : 0x10000 ≤ n) (hhigh : n < 0x110000) :
    pairCodepoint (0xD800 + (n - 0x10000) / 0x400) (0xDC00 + (n - 0x10000) % 0x400) = n := by
  unfold pairCodepoint
  rw [Nat.and_two_pow_sub_one_eq_mod _ 10, Nat.and_two_pow_sub_one_eq_mod _ 10,
    ← Nat.shiftLeft_add_eq_or_of_lt (by omega), Nat.shiftLeft_eq]
  omega

/-- Any other character, by its surrogates. -/
theorem utf16_pair {c : Char} (hc : 0x10000 ≤ c.toNat) {high low : List UInt8}
    (hlength : high.length = 4) (hlength' : low.length = 4)
    (hhigh : hexCode high = some (0xD800 + (c.toNat - 0x10000) / 0x400))
    (hlow : hexCode low = some (0xDC00 + (c.toNat - 0x10000) % 0x400)) (rest : List UInt8) :
    utf16LiteralToUtf8 (unicodeEscape high ++ (unicodeEscape low ++ rest)) =
      some (String.utf8EncodeChar c, 12) := by
  have hlt := char_toNat_lt c
  have hdrop : (unicodeEscape high ++ (unicodeEscape low ++ rest)).drop 2 =
      high ++ (unicodeEscape low ++ rest) := rfl
  have hsecond : (unicodeEscape high ++ (unicodeEscape low ++ rest)).drop 6 =
      unicodeEscape low ++ rest := by
    rw [List.drop_append_of_le_length (by simp [unicodeEscape, hlength]),
      List.drop_eq_nil_of_le (by simp [unicodeEscape, hlength]), List.nil_append]
  have hdrop' : (unicodeEscape low ++ rest).drop 2 = low ++ rest := rfl
  rw [utf16LiteralToUtf8, if_neg (by simp [unicodeEscape, hlength]), hdrop, hsecond,
    parseHex4_digits hlength hhigh]
  dsimp only
  rw [hdrop', parseHex4_digits hlength' hlow, if_neg (by omega), if_pos (by omega), if_neg (by simp [unicodeEscape, hlength']),
    if_neg (by simp [unicodeEscape]), if_neg (by omega), pairCodepoint_halves hc hlt,
    encodeUtf8_char]
  rfl

/-! ## What is decoded -/

theorem hexValue_lt {b : UInt8} {v : Nat} (h : hexValue b = some v) : v < 16 := by
  unfold hexValue at h
  simp only [UInt8.le_iff_toNat_le, UInt8.reduceToNat] at h
  split_ifs at h with hdecimal hupper hlower
  · obtain rfl := Option.some.inj h
    omega
  · obtain rfl := Option.some.inj h
    omega
  · obtain rfl := Option.some.inj h
    omega

theorem hexCode_foldlM_lt (digits : List UInt8) {h code : Nat}
    (hcode : digits.foldlM (fun h b => (hexValue b).map (h * 16 + ·)) h = some code) :
    code < (h + 1) * 16 ^ digits.length := by
  induction digits generalizing h with
  | nil =>
    obtain rfl := Option.some.inj hcode
    simp
  | cons b digits ih =>
    rw [List.foldlM_cons] at hcode
    obtain ⟨h', hh', hcode⟩ := Option.bind_eq_some_iff.mp hcode
    obtain ⟨v, hv, rfl⟩ := Option.map_eq_some_iff.mp hh'
    have hlt := hexValue_lt hv
    calc code < (h * 16 + v + 1) * 16 ^ digits.length := ih hcode
      _ ≤ ((h + 1) * 16) * 16 ^ digits.length := Nat.mul_le_mul_right _ (by omega)
      _ = (h + 1) * 16 ^ (b :: digits).length := by
        rw [List.length_cons, Nat.pow_succ, Nat.mul_assoc, Nat.mul_comm 16]

/-- Four digits, a code unit. -/
theorem parseHex4_lt (input : List UInt8) : parseHex4 input < 0x10000 := by
  unfold parseHex4
  cases hcode : hexCode (input.take 4) with
  | none => exact Nat.zero_lt_succ _
  | some code =>
    have hlt := hexCode_foldlM_lt (input.take 4) hcode
    have hpow : 16 ^ (input.take 4).length ≤ 16 ^ 4 :=
      Nat.pow_le_pow_right (by decide) (List.length_take_le 4 input)
    rw [Option.getD_some]
    omega

theorem pairCodepoint_bounds (firstCode secondCode : Nat) :
    0x10000 ≤ pairCodepoint firstCode secondCode ∧
      pairCodepoint firstCode secondCode < 0x110000 := by
  unfold pairCodepoint
  have hlow : secondCode % 2 ^ 10 < 2 ^ 10 := Nat.mod_lt _ (by decide)
  rw [Nat.and_two_pow_sub_one_eq_mod _ 10, Nat.and_two_pow_sub_one_eq_mod _ 10,
    ← Nat.shiftLeft_add_eq_or_of_lt hlow, Nat.shiftLeft_eq]
  omega

/-- A number that is no surrogate and not too large is the code of a character. -/
theorem exists_char {n : Nat} (h : n < 0xD800 ∨ 0xDFFF < n) (hlt : n < 0x110000) :
    ∃ c : Char, c.toNat = n :=
  have hvalid : n.isValidChar := by unfold Nat.isValidChar; omega
  ⟨Char.ofNat n, by rw [Char.ofNat, dif_pos hvalid]; rfl⟩

theorem length_utf8_basic {c : Char} (h : c.toNat < 0x10000) :
    (String.utf8EncodeChar c).length ≤ 3 := by
  change c.val.toNat < _ at h
  have h' : c.val.toNat ≤ 0xffff := by omega
  unfold String.utf8EncodeChar
  dsimp only
  split_ifs <;> simp

theorem length_utf8_supplementary {c : Char} (h : 0x10000 ≤ c.toNat) :
    (String.utf8EncodeChar c).length = 4 := by
  change _ ≤ c.val.toNat at h
  have h1 : ¬ c.val.toNat ≤ 0x7f := by omega
  have h2 : ¬ c.val.toNat ≤ 0x7ff := by omega
  have h3 : ¬ c.val.toNat ≤ 0xffff := by omega
  unfold String.utf8EncodeChar
  dsimp only
  rw [if_neg h1, if_neg h2, if_neg h3]
  rfl

/-- Whatever is decoded is the UTF-8 of a character. -/
theorem utf16_sound {input bytes : List UInt8} {length : Nat}
    (h : utf16LiteralToUtf8 input = some (bytes, length)) :
    (∃ c : Char, bytes = String.utf8EncodeChar c) ∧ length ≤ input.length ∧
      (length = 6 ∧ bytes.length ≤ 3 ∨ length = 12 ∧ bytes.length = 4) := by
  unfold utf16LiteralToUtf8 at h
  dsimp only at h
  have hunit := parseHex4_lt (input.drop 2)
  split_ifs at h with hlength hlow hhigh hlength' hescape hsecond
  · -- two code units
    obtain ⟨hge, hlt⟩ := pairCodepoint_bounds (parseHex4 (input.drop 2))
      (parseHex4 ((input.drop 6).drop 2))
    obtain ⟨c, hc⟩ := exists_char (by omega) hlt
    rw [← hc, encodeUtf8_char] at h
    cases h
    rw [List.length_drop] at hlength'
    exact ⟨⟨c, rfl⟩, by omega, Or.inr ⟨rfl, length_utf8_supplementary (by omega)⟩⟩
  · -- one
    obtain ⟨c, hc⟩ : ∃ c : Char, c.toNat = parseHex4 (input.drop 2) :=
      exists_char (by omega) (by omega)
    rw [← hc, encodeUtf8_char] at h
    cases h
    exact ⟨⟨c, rfl⟩, by omega, Or.inl ⟨rfl, length_utf8_basic (by omega)⟩⟩

end OlegPrinter
