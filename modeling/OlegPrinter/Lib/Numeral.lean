/-
  Decimal numerals, as `strtod` reads them from text without blanks, `inf`, `nan` or hexadecimal.

  * `Numeral`: a numeral by its parts: sign, digits with an optional point among them (one digit
    at least), an optional exponent.
  * `Numeral.scan`: the longest numeral at the front of a text, if there is one.
  * `Numeral.negative`, `Numeral.value`: its sign and its absolute value.
  * `Numeral.ofInt`: the numeral that `%d` prints.

  `scan_sound`: what is scanned stands at the front of the text. `scan_append`: a numeral followed by
  nothing that could belong to a numeral is scanned whole.
-/
import OlegPrinter.Lib.Bytes
import Mathlib.Algebra.Order.Field.Rat

namespace CLib

/-! ## Parts -/

def plus : UInt8 := 0x2b

def minus : UInt8 := 0x2d

def point : UInt8 := 0x2e

def IsSign (s : List UInt8) : Prop := s = [] ∨ s = [plus] ∨ s = [minus]

def IsDigits (s : List UInt8) : Prop := ∀ b ∈ s, isDigit b

/-- `e` or `E`, a sign, digits. -/
structure Exponent where
  letter : UInt8
  sign : List UInt8
  digits : List UInt8
  isLetter : letter = 0x65 ∨ letter = 0x45
  isSign : IsSign sign
  isDigits : IsDigits digits
  digits_ne : digits ≠ []

/-- `fraction` is what stands behind the point, if there is one. -/
structure Numeral where
  sign : List UInt8
  whole : List UInt8
  fraction : Option (List UInt8)
  exponent : Option Exponent
  isSign : IsSign sign
  isDigits : IsDigits whole
  isDigits' : ∀ s, fraction = some s → IsDigits s
  digits_ne : whole ++ fraction.getD [] ≠ []

def Exponent.text (e : Exponent) : List UInt8 := e.letter :: (e.sign ++ e.digits)

namespace Numeral

def fractionText : Option (List UInt8) → List UInt8
  | none => []
  | some s => point :: s

def exponentText : Option Exponent → List UInt8
  | none => []
  | some e => e.text

def text (n : Numeral) : List UInt8 :=
  n.sign ++ (n.whole ++ (fractionText n.fraction ++ exponentText n.exponent))

theorem text_ne_nil (n : Numeral) : n.text ≠ [] := by
  intro h
  unfold text at h
  simp only [List.append_eq_nil_iff] at h
  obtain ⟨-, hwhole, hfraction, -⟩ := h
  refine n.digits_ne ?_
  rw [hwhole, List.nil_append]
  cases hf : n.fraction with
  | none => rfl
  | some s =>
    rw [hf] at hfraction
    cases hfraction

/-- The bytes that can occur in a numeral. -/
def numberByte (b : UInt8) : Bool :=
  isDigit b ∨ b = plus ∨ b = minus ∨ b = 0x65 ∨ b = 0x45 ∨ b = point

/-! ## Scanning -/

def scanSign : List UInt8 → List UInt8 × List UInt8
  | [] => ([], [])
  | b :: s => if b = plus ∨ b = minus then ([b], s) else ([], b :: s)

def scanFraction : List UInt8 → Option (List UInt8) × List UInt8
  | [] => (none, [])
  | b :: s => if b = point then (some (s.takeWhile isDigit), s.dropWhile isDigit) else (none, b :: s)

theorem isSign_scanSign (s : List UInt8) : IsSign (scanSign s).1 := by
  cases s with
  | nil => exact Or.inl rfl
  | cons b s =>
    rw [scanSign]
    split_ifs with h
    · rcases h with rfl | rfl
      · exact Or.inr (Or.inl rfl)
      · exact Or.inr (Or.inr rfl)
    · exact Or.inl rfl

theorem isDigits_takeWhile (s : List UInt8) : IsDigits (s.takeWhile isDigit) :=
  fun _ hb => List.mem_takeWhile_imp hb

theorem isDigits_scanFraction (s : List UInt8) :
    ∀ t, (scanFraction s).1 = some t → IsDigits t := by
  intro t ht
  cases s with
  | nil => cases ht
  | cons b s =>
    rw [scanFraction] at ht
    split_ifs at ht with h
    cases ht
    exact isDigits_takeWhile s

def scanExponent : List UInt8 → Option Exponent
  | [] => none
  | b :: s =>
    if hb : b = 0x65 ∨ b = 0x45 then
      if hd : (scanSign s).2.takeWhile isDigit = [] then none
      else some ⟨b, (scanSign s).1, (scanSign s).2.takeWhile isDigit, hb, isSign_scanSign s,
        isDigits_takeWhile _, hd⟩
    else none

/-- The numeral at the front of a text. -/
def scan (s : List UInt8) : Option Numeral :=
  let rest := (scanSign s).2
  let behind := rest.dropWhile isDigit
  if h : rest.takeWhile isDigit ++ (scanFraction behind).1.getD [] = [] then none
  else some ⟨(scanSign s).1, rest.takeWhile isDigit, (scanFraction behind).1,
    scanExponent (scanFraction behind).2, isSign_scanSign s, isDigits_takeWhile _,
    isDigits_scanFraction _, h⟩

example : (scan (ascii "-12.5e+3x")).map text = some (ascii "-12.5e+3") := by decide

/-! ## What is scanned is there -/

theorem scanSign_append (s : List UInt8) : (scanSign s).1 ++ (scanSign s).2 = s := by
  cases s with
  | nil => rfl
  | cons b s =>
    rw [scanSign]
    split_ifs <;> rfl

theorem scanFraction_append (s : List UInt8) :
    fractionText (scanFraction s).1 ++ (scanFraction s).2 = s := by
  cases s with
  | nil => rfl
  | cons b s =>
    rw [scanFraction]
    split_ifs with h
    · simp [fractionText, h]
    · rfl

theorem scanExponent_sound (s : List UInt8) : ∃ rest, s = exponentText (scanExponent s) ++ rest := by
  cases s with
  | nil => exact ⟨[], rfl⟩
  | cons b s =>
    rw [scanExponent]
    split_ifs with hb hd
    · exact ⟨b :: s, rfl⟩
    · refine ⟨(scanSign s).2.dropWhile isDigit, ?_⟩
      simp [exponentText, Exponent.text, scanSign_append]
    · exact ⟨b :: s, rfl⟩

theorem scan_sound {s : List UInt8} {n : Numeral} (h : scan s = some n) :
    ∃ rest, s = n.text ++ rest := by
  unfold scan at h
  dsimp only at h
  split_ifs at h with hnone
  cases h
  obtain ⟨rest, hrest⟩ := scanExponent_sound (scanFraction ((scanSign s).2.dropWhile isDigit)).2
  refine ⟨rest, ?_⟩
  unfold text
  simp only [List.append_assoc]
  rw [← hrest, scanFraction_append, List.takeWhile_append_dropWhile, scanSign_append]

/-! ## A numeral is scanned whole -/

/-- Nothing that could belong to a numeral comes next. -/
def Stops (rest : List UInt8) : Prop := ∀ b ∈ rest.head?, numberByte b = false

theorem takeWhile_run {p : UInt8 → Bool} {run rest : List UInt8} (hrun : ∀ b ∈ run, p b)
    (hrest : ∀ b ∈ rest.head?, p b = false) : (run ++ rest).takeWhile p = run := by
  rw [List.takeWhile_append_of_pos hrun]
  cases rest with
  | nil => simp
  | cons b rest => simp [hrest b rfl]

theorem dropWhile_run {p : UInt8 → Bool} {run rest : List UInt8} (hrun : ∀ b ∈ run, p b)
    (hrest : ∀ b ∈ rest.head?, p b = false) : (run ++ rest).dropWhile p = rest := by
  rw [List.dropWhile_append_of_pos hrun]
  cases rest with
  | nil => rfl
  | cons b rest => simp [hrest b rfl]

theorem isDigit_letter {b : UInt8} (h : b = 0x65 ∨ b = 0x45) : isDigit b = false := by
  rcases h with rfl | rfl <;> decide

theorem Stops.isDigit {rest : List UInt8} (h : Stops rest) :
    ∀ b ∈ rest.head?, CLib.isDigit b = false := by
  intro b hb
  have hnumber := h b hb
  unfold numberByte at hnumber
  simp only [Bool.decide_or, Bool.or_eq_false_iff, decide_eq_false_iff_not, Bool.not_eq_true]
    at hnumber
  exact hnumber.1

theorem scanSign_sign {sign rest : List UInt8} (hsign : IsSign sign)
    (hrest : ∀ b ∈ rest.head?, b ≠ plus ∧ b ≠ minus) : scanSign (sign ++ rest) = (sign, rest) := by
  rcases hsign with rfl | rfl | rfl
  · cases rest with
    | nil => rfl
    | cons b rest =>
      obtain ⟨hplus, hminus⟩ := hrest b rfl
      simp [scanSign, hplus, hminus]
  · simp [scanSign]
  · simp [scanSign]

theorem not_sign_of_isDigit {b : UInt8} (h : CLib.isDigit b) : b ≠ plus ∧ b ≠ minus := by
  constructor
  · rintro rfl
    exact absurd h (by decide)
  · rintro rfl
    exact absurd h (by decide)

theorem scanExponent_text (e : Option Exponent) {rest : List UInt8} (h : Stops rest) :
    scanExponent (exponentText e ++ rest) = e := by
  cases e with
  | none =>
    cases rest with
    | nil => rfl
    | cons b rest =>
      have hnumber := h b rfl
      unfold numberByte at hnumber
      simp only [Bool.decide_or, Bool.or_eq_false_iff, decide_eq_false_iff_not] at hnumber
      change scanExponent (b :: rest) = none
      rw [scanExponent, dif_neg (not_or.mpr ⟨hnumber.2.2.2.1, hnumber.2.2.2.2.1⟩)]
  | some e =>
    have hsign : scanSign (e.sign ++ (e.digits ++ rest)) = (e.sign, e.digits ++ rest) := by
      refine scanSign_sign e.isSign fun b hb => not_sign_of_isDigit (e.isDigits b ?_)
      cases hdigits : e.digits with
      | nil => exact absurd hdigits e.digits_ne
      | cons d digits =>
        rw [hdigits] at hb
        obtain rfl := Option.some.inj hb
        exact List.mem_cons_self ..
    have hdigits : (e.digits ++ rest).takeWhile CLib.isDigit = e.digits :=
      takeWhile_run e.isDigits h.isDigit
    change scanExponent (e.letter :: ((e.sign ++ e.digits) ++ rest)) = some e
    rw [List.append_assoc, scanExponent, dif_pos e.isLetter]
    simp only [hsign, hdigits]
    rw [dif_neg e.digits_ne]

theorem isDigit_head_exponent (e : Option Exponent) {rest : List UInt8} (h : Stops rest) :
    ∀ b ∈ (exponentText e ++ rest).head?, CLib.isDigit b = false := by
  cases e with
  | none => exact h.isDigit
  | some e =>
    intro b hb
    obtain rfl := Option.some.inj hb
    exact isDigit_letter e.isLetter

theorem point_head_exponent (e : Option Exponent) {rest : List UInt8} (h : Stops rest) :
    ∀ b ∈ (exponentText e ++ rest).head?, b ≠ point := by
  cases e with
  | none =>
    rintro b hb rfl
    exact absurd (h point hb) (by decide)
  | some e =>
    rintro b hb rfl
    have hletter := e.isLetter
    rw [Option.some.inj hb] at hletter
    exact absurd hletter (by decide)

theorem scanFraction_text {fraction : Option (List UInt8)} {rest : List UInt8}
    (hdigits : ∀ s, fraction = some s → IsDigits s)
    (hrest : ∀ b ∈ rest.head?, CLib.isDigit b = false) (hpoint : ∀ b ∈ rest.head?, b ≠ point) :
    scanFraction (fractionText fraction ++ rest) = (fraction, rest) := by
  cases fraction with
  | none =>
    cases rest with
    | nil => rfl
    | cons b rest =>
      change scanFraction (b :: rest) = _
      rw [scanFraction, if_neg (hpoint b rfl)]
  | some s =>
    change scanFraction (point :: (s ++ rest)) = _
    rw [scanFraction, if_pos rfl, takeWhile_run (hdigits s rfl) hrest,
      dropWhile_run (hdigits s rfl) hrest]

theorem scan_append (n : Numeral) {rest : List UInt8} (h : Stops rest) :
    scan (n.text ++ rest) = some n := by
  have hexponent := isDigit_head_exponent n.exponent h
  have hfraction := scanFraction_text n.isDigits' hexponent (point_head_exponent n.exponent h)
  have hbehind : ∀ b ∈ (fractionText n.fraction ++ (exponentText n.exponent ++ rest)).head?,
      CLib.isDigit b = false := by
    cases n.fraction with
    | none => exact hexponent
    | some s =>
      intro b hb
      obtain rfl := Option.some.inj hb
      decide
  have hsign : scanSign (n.sign ++
      (n.whole ++ (fractionText n.fraction ++ (exponentText n.exponent ++ rest)))) =
        (n.sign, n.whole ++ (fractionText n.fraction ++ (exponentText n.exponent ++ rest))) := by
    refine scanSign_sign n.isSign fun b hb => ?_
    cases hwhole : n.whole with
    | cons d whole =>
      rw [hwhole] at hb
      obtain rfl := Option.some.inj hb
      exact not_sign_of_isDigit (n.isDigits d (hwhole ▸ List.mem_cons_self ..))
    | nil =>
      have hne := n.digits_ne
      rw [hwhole] at hb hne
      cases hf : n.fraction with
      | none => exact absurd (by rw [hf]; rfl) hne
      | some s =>
        rw [hf] at hb
        obtain rfl := Option.some.inj hb
        decide
  have htext : n.text ++ rest = n.sign ++
      (n.whole ++ (fractionText n.fraction ++ (exponentText n.exponent ++ rest))) := by
    simp only [text, List.append_assoc]
  rw [scan, htext]
  simp only [hsign, takeWhile_run n.isDigits hbehind, dropWhile_run n.isDigits hbehind, hfraction,
    scanExponent_text n.exponent h]
  rw [dif_neg n.digits_ne]

theorem numberByte_of_isDigit {b : UInt8} (h : CLib.isDigit b) : numberByte b := by
  simp [numberByte, h]

theorem numberByte_of_isSign {s : List UInt8} (h : IsSign s) : ∀ b ∈ s, numberByte b := by
  rcases h with rfl | rfl | rfl
  · exact List.forall_mem_nil _
  · exact List.forall_mem_singleton.mpr (by decide)
  · exact List.forall_mem_singleton.mpr (by decide)

/-- Every byte of a numeral can occur in one. -/
theorem numberByte_text (n : Numeral) : ∀ b ∈ n.text, numberByte b := by
  intro b hb
  unfold text at hb
  simp only [List.mem_append] at hb
  rcases hb with hb | hb | hb | hb
  · exact numberByte_of_isSign n.isSign b hb
  · exact numberByte_of_isDigit (n.isDigits b hb)
  · cases hf : n.fraction with
    | none => rw [hf] at hb; cases hb
    | some s =>
      rw [hf] at hb
      rcases List.mem_cons.mp hb with rfl | hb
      · decide
      · exact numberByte_of_isDigit (n.isDigits' s hf b hb)
  · cases he : n.exponent with
    | none => rw [he] at hb; cases hb
    | some e =>
      rw [he] at hb
      rcases List.mem_cons.mp hb with rfl | hb
      · rcases e.isLetter with hl | hl <;> rw [hl] <;> decide
      · rcases List.mem_append.mp hb with hb | hb
        · exact numberByte_of_isSign e.isSign b hb
        · exact numberByte_of_isDigit (e.isDigits b hb)

/-! ## Values -/

/-- The number that decimal digits denote. -/
def natValue (digits : List UInt8) : Nat := digits.foldl (fun v d => 10 * v + (d.toNat - 0x30)) 0

def exponentValue : Option Exponent → Int
  | none => 0
  | some e => if e.sign = [minus] then -(natValue e.digits : Int) else natValue e.digits

def negative (n : Numeral) : Bool := n.sign = [minus]

/-- The absolute value. -/
def value (n : Numeral) : ℚ :=
  let fraction := n.fraction.getD []
  natValue (n.whole ++ fraction) * (10 : ℚ) ^ (exponentValue n.exponent - (fraction.length : Int))

/-! ## Integers -/

/-- The decimal digits of a number. -/
def digitsOf (n : Nat) : List UInt8 := (Nat.toDigits 10 n).map fun c => UInt8.ofNat c.toNat

theorem toNat_byte {c : Char} (h : c.isDigit) : (UInt8.ofNat c.toNat).toNat = c.toNat := by
  have hle : c.toNat ≤ 0x39 := (Char.isDigit_iff_toNat.mp h).2
  rw [UInt8.toNat_ofNat', Nat.mod_eq_of_lt (by omega)]

theorem isDigits_digitsOf (n : Nat) : IsDigits (digitsOf n) := by
  intro b hb
  obtain ⟨c, hc, rfl⟩ := List.mem_map.mp hb
  have hdigit := Nat.isDigit_of_mem_toDigits (by decide) (by decide) hc
  have hbyte := toNat_byte hdigit
  rw [Char.isDigit_iff_toNat] at hdigit
  simp only [CLib.isDigit, UInt8.le_iff_toNat_le, hbyte, UInt8.reduceToNat, decide_eq_true_eq]
  exact hdigit

theorem digitsOf_ne_nil (n : Nat) : digitsOf n ≠ [] := by
  unfold digitsOf
  rw [ne_eq, List.map_eq_nil_iff]
  exact Nat.toDigits_ne_nil

theorem natValue_digitsOf (n : Nat) : natValue (digitsOf n) = n := by
  have hfold : ∀ (cs : List Char) (v : Nat), (∀ c ∈ cs, c.isDigit) →
      (cs.map fun c => UInt8.ofNat c.toNat).foldl (fun v d => 10 * v + (d.toNat - 0x30)) v =
        Nat.ofDigitChars 10 cs v := by
    intro cs
    induction cs with
    | nil => intro v _; rfl
    | cons c cs ih =>
      intro v hcs
      rw [List.map_cons, List.foldl_cons, toNat_byte (hcs c (List.mem_cons_self ..)),
        ih _ fun c' hc' => hcs c' (List.mem_cons_of_mem _ hc'), Nat.ofDigitChars_cons]
      rfl
  unfold natValue digitsOf
  rw [hfold _ _ fun c hc => Nat.isDigit_of_mem_toDigits (by decide) (by decide) hc,
    Nat.ofDigitChars_toDigits (by decide) (by decide)]

/-- The numeral of an integer. -/
def ofInt (i : Int) : Numeral where
  sign := if i < 0 then [minus] else []
  whole := digitsOf i.natAbs
  fraction := none
  exponent := none
  isSign := by
    split_ifs
    · exact Or.inr (Or.inr rfl)
    · exact Or.inl rfl
  isDigits := isDigits_digitsOf _
  isDigits' := nofun
  digits_ne := by simpa using digitsOf_ne_nil _

theorem ascii_repr (n : Nat) : ascii n.repr = digitsOf n := by
  rw [ascii, Nat.toList_repr, digitsOf]

/-- `%d` prints it. -/
theorem text_ofInt (i : Int) : (ofInt i).text = decimal i := by
  cases i with
  | ofNat n =>
    have htext : (ofInt (Int.ofNat n)).text = digitsOf n := by
      simp [text, ofInt, fractionText, exponentText]
    rw [htext, ← ascii_repr]
    rfl
  | negSucc n =>
    have htext : (ofInt (Int.negSucc n)).text = minus :: digitsOf (n + 1) := by
      simp [text, ofInt, fractionText, exponentText, Int.negSucc_lt_zero]
    rw [htext, ← ascii_repr]
    simp [decimal, ascii, toString, Int.repr, minus]

theorem negative_ofInt (i : Int) : (ofInt i).negative = decide (i < 0) := by
  unfold negative ofInt
  by_cases h : i < 0 <;> simp [h]

theorem value_ofInt (i : Int) : (ofInt i).value = i.natAbs := by
  simp [value, ofInt, natValue_digitsOf, exponentValue]

end Numeral

end CLib
