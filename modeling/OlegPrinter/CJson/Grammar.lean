/-
  The texts that denote a tree.

  This is the language, not the parser: nothing here looks ahead, skips or counts. `IsText S n item t`:
  the text `t`, with arrays and objects at most `n` deep, denotes `item`. It is JSON except
  that `Blanks` may be any control characters, that a string may contain them, that a numeral is
  whatever `strtod` takes, and for what stands after `\u`.

  * `Literal`: what may stand between quotes, and the bytes it denotes. Where it ends and how it is
    decoded do not always agree (a `\u` may take a backslash for a digit), so it says both.
  * `Escaped`: the literals that JSON has. `Escaped.literal`: they are literals, and denote the same.
-/
import OlegPrinter.Lib.Separated
import OlegPrinter.CJson.Parse

namespace OlegPrinter

open CLib ParseBuffer

/-! ## Strings -/

/-- Escape by escape, and any other byte as it is. -/
inductive Decodes : List UInt8 → List UInt8 → Prop
  | nil : Decodes [] []
  | plain {b : UInt8} {t s : List UInt8} (hb : b ≠ backslash) (h : Decodes t s) :
      Decodes (b :: t) (b :: s)
  | escape {t s bytes : List UInt8} {n : Nat}
      (hn : escapeSequence (backslash :: t) = some (bytes, n))
      (h : Decodes ((backslash :: t).drop n) s) : Decodes (backslash :: t) (bytes ++ s)

/-- No quote in it ends it: a backslash takes the byte behind it along, whatever that is. `skipped` of
    them do. -/
inductive Closed : List UInt8 → ℕ → Prop
  | nil : Closed [] 0
  | plain {b : UInt8} {t : List UInt8} {skipped : ℕ} (hquote : b ≠ quote) (hb : b ≠ backslash)
      (h : Closed t skipped) : Closed (b :: t) skipped
  | pair (c : UInt8) {t : List UInt8} {skipped : ℕ} (h : Closed t skipped) :
      Closed (backslash :: c :: t) (skipped + 1)

/-- What may stand between quotes, and the bytes it is decoded to. -/
def Literal (t s : List UInt8) : Prop := (∃ skipped, Closed t skipped) ∧ Decodes t s

/-- JSON: a character stands for itself or is escaped, by a letter or by its code units. -/
inductive Escaped : List UInt8 → List UInt8 → Prop
  | nil : Escaped [] []
  | plain {b : UInt8} {t s : List UInt8} (hquote : b ≠ quote) (hb : b ≠ backslash)
      (h : Escaped t s) : Escaped (b :: t) (b :: s)
  | short {c e : UInt8} {t s : List UInt8} (he : shortEscape c = some e) (h : Escaped t s) :
      Escaped (backslash :: c :: t) (e :: s)
  | basic (c : Char) {digits t s : List UInt8} (hlength : digits.length = 4)
      (hcode : hexCode digits = some c.toNat) (h : Escaped t s) :
      Escaped (unicodeEscape digits ++ t) (String.utf8EncodeChar c ++ s)
  | pair (c : Char) {high low t s : List UInt8} (hc : 0x10000 ≤ c.toNat) (hlength : high.length = 4)
      (hlength' : low.length = 4)
      (hhigh : hexCode high = some (0xD800 + (c.toNat - 0x10000) / 0x400))
      (hlow : hexCode low = some (0xDC00 + (c.toNat - 0x10000) % 0x400)) (h : Escaped t s) :
      Escaped (unicodeEscape high ++ (unicodeEscape low ++ t)) (String.utf8EncodeChar c ++ s)

/-! ## Values -/

/-- A numeral as `parse_value` recognises one. -/
def IsNumber (n : Numeral) : Prop :=
  n.text.length ≤ 63 ∧ ∃ c s, n.text = c :: s ∧ (c = minus ∨ isDigit c)

inductive Scalar (S : Strtod) : CJson → List UInt8 → Prop
  | null : Scalar S .null (ascii "null")
  | false : Scalar S .false (ascii "false")
  | true : Scalar S .true (ascii "true")
  | string {t s : List UInt8} (h : Literal t s) :
      Scalar S (.string (some (CStr.ofMemory s))) (quote :: (t ++ [quote]))
  | number {n : Numeral} (h : IsNumber n) : Scalar S (S.item n) n.text

/-- The items of a chain with their names. -/
def Chain.ofEntries : List (Option CStr × CJson) → Chain
  | [] => .nil
  | (string, item) :: es => .cons string item (ofEntries es)

/-- An element has no name. -/
def IsElement (T : CJson → List UInt8 → Prop) (e : Option CStr × CJson) (t : List UInt8) : Prop :=
  e.1 = none ∧ T e.2 t

/-- A member: its name, a colon, its value. -/
def IsMember (T : CJson → List UInt8 → Prop) (e : Option CStr × CJson) (t : List UInt8) : Prop :=
  ∃ name s w w' u, Literal name s ∧ Blanks isBlank w ∧ Blanks isBlank w' ∧
    e.1 = some (CStr.ofMemory s) ∧ T e.2 u ∧
      t = quote :: (name ++ [quote]) ++ (w ++ colon :: (w' ++ u))

/-- Brackets around items whose texts are `T`. -/
inductive Composite (T : CJson → List UInt8 → Prop) : CJson → List UInt8 → Prop
  | array {es : List (Option CStr × CJson)} {t : List UInt8}
      (h : Listed isBlank commaByte (IsElement T) es t) :
      Composite T (.array (Chain.ofEntries es)) (leftBracket :: (t ++ [rightBracket]))
  | object {es : List (Option CStr × CJson)} {t : List UInt8}
      (h : Listed isBlank commaByte (IsMember T) es t) :
      Composite T (.object (Chain.ofEntries es)) (leftBrace :: (t ++ [rightBrace]))

/-- The texts of an item, nested at most `n` deep. -/
def IsText (S : Strtod) : ℕ → CJson → List UInt8 → Prop
  | 0 => Scalar S
  | n + 1 => fun item t => Scalar S item t ∨ Composite (IsText S n) item t

def utf8Bom : List UInt8 := [0xEF, 0xBB, 0xBF]

/-- A value, after a byte order mark or none, and blanks. -/
def IsDocument (S : Strtod) (item : CJson) (t : List UInt8) : Prop :=
  ∃ bom w u, (bom = [] ∨ bom = utf8Bom) ∧ Blanks isBlank w ∧ IsText S nestingLimit item u ∧
    t = bom ++ (w ++ u)

/-! ## How texts begin and end -/

theorem numberByte_of_isBlank {c : UInt8} (h : isBlank c) : Numeral.numberByte c = false := by
  simp only [isBlank, UInt8.le_iff_toNat_le, UInt8.reduceToNat, decide_eq_true_eq] at h
  have hne : ∀ d : UInt8, 32 < d.toNat → c ≠ d := by
    rintro d hd rfl
    omega
  have hdigit : isDigit c = false := by
    simp only [isDigit, UInt8.le_iff_toNat_le, UInt8.reduceToNat, decide_eq_false_iff_not]
    omega
  simp [Numeral.numberByte, hdigit, hne plus (by decide), hne minus (by decide),
    hne 0x65 (by decide), hne 0x45 (by decide), hne point (by decide)]

/-- The bytes a value can begin with. -/
def startsValue (c : UInt8) : Prop :=
  c = 0x6e ∨ c = 0x66 ∨ c = 0x74 ∨ c = quote ∨ (c = minus ∨ isDigit c) ∨ c = leftBracket ∨
    c = leftBrace

theorem Scalar.starts {S : Strtod} {item : CJson} {t : List UInt8} (h : Scalar S item t) :
    ∃ c s, t = c :: s ∧ startsValue c := by
  cases h with
  | null => exact ⟨0x6e, ascii "ull", rfl, Or.inl rfl⟩
  | false => exact ⟨0x66, ascii "alse", rfl, Or.inr (Or.inl rfl)⟩
  | true => exact ⟨0x74, ascii "rue", rfl, Or.inr (Or.inr (Or.inl rfl))⟩
  | string h => exact ⟨quote, _, rfl, Or.inr (Or.inr (Or.inr (Or.inl rfl)))⟩
  | number h =>
    obtain ⟨-, c, s, hc, hstart⟩ := h
    exact ⟨c, s, hc, Or.inr (Or.inr (Or.inr (Or.inr (Or.inl hstart))))⟩

theorem IsText.starts {S : Strtod} {n : ℕ} {item : CJson} {t : List UInt8}
    (h : IsText S n item t) : ∃ c s, t = c :: s ∧ startsValue c := by
  cases n with
  | zero => exact Scalar.starts h
  | succ n =>
    rcases h with h | h
    · exact h.starts
    · cases h with
      | array h => exact ⟨leftBracket, _, rfl, by simp [startsValue]⟩
      | object h => exact ⟨leftBrace, _, rfl, by simp [startsValue]⟩

/-- And none ends with a blank. -/
theorem Scalar.ends {S : Strtod} {item : CJson} {t : List UInt8} (h : Scalar S item t) :
    ∃ s c, t = s ++ [c] ∧ isBlank c = Bool.false := by
  cases h with
  | null => exact ⟨ascii "nul", 0x6c, rfl, by decide⟩
  | false => exact ⟨ascii "fals", 0x65, rfl, by decide⟩
  | true => exact ⟨ascii "tru", 0x65, rfl, by decide⟩
  | @string t s h => exact ⟨quote :: t, quote, rfl, by decide⟩
  | @number n h =>
    have hne := Numeral.text_ne_nil n
    refine ⟨n.text.dropLast, n.text.getLast hne, (List.dropLast_append_getLast hne).symm, ?_⟩
    rw [Bool.eq_false_iff]
    intro hblank
    have hnumber := Numeral.numberByte_text n _ (List.getLast_mem hne)
    rw [numberByte_of_isBlank hblank] at hnumber
    cases hnumber

theorem IsText.ends {S : Strtod} {n : ℕ} {item : CJson} {t : List UInt8} (h : IsText S n item t) :
    ∃ s c, t = s ++ [c] ∧ isBlank c = false := by
  cases n with
  | zero => exact Scalar.ends h
  | succ n =>
    rcases h with h | h
    · exact h.ends
    · cases h with
      | @array es t h => exact ⟨leftBracket :: t, rightBracket, rfl, by decide⟩
      | @object es t h => exact ⟨leftBrace :: t, rightBrace, rfl, by decide⟩

theorem IsDocument.ends {S : Strtod} {item : CJson} {t : List UInt8} (h : IsDocument S item t) :
    ∃ s c, t = s ++ [c] ∧ isBlank c = false := by
  obtain ⟨bom, w, u, -, -, hu, rfl⟩ := h
  obtain ⟨s, c, rfl, hc⟩ := hu.ends
  exact ⟨bom ++ (w ++ s), c, by simp, hc⟩

theorem startsValue.ne {c : UInt8} (h : startsValue c) :
    isBlank c = false ∧ c ≠ rightBracket ∧ c ≠ rightBrace := by
  rcases h with rfl | rfl | rfl | rfl | (rfl | hdigit) | rfl | rfl
  any_goals decide
  simp only [isDigit, UInt8.le_iff_toNat_le, UInt8.reduceToNat, decide_eq_true_eq] at hdigit
  refine ⟨?_, ?_, ?_⟩
  · simp only [isBlank, UInt8.le_iff_toNat_le, UInt8.reduceToNat, decide_eq_false_iff_not]
    omega
  · rintro rfl
    exact absurd hdigit.2 (by decide)
  · rintro rfl
    exact absurd hdigit.2 (by decide)

theorem Composite.mono {T T' : CJson → List UInt8 → Prop} (himp : ∀ item t, T item t → T' item t)
    {item : CJson} {t : List UInt8} (h : Composite T item t) : Composite T' item t := by
  cases h with
  | array h =>
    refine .array (h.mono fun e u he => ?_)
    exact ⟨he.1, himp _ _ he.2⟩
  | object h =>
    refine .object (h.mono fun e u he => ?_)
    obtain ⟨name, s, w, w', v, hname, hw, hw', hstring, hv, ht⟩ := he
    exact ⟨name, s, w, w', v, hname, hw, hw', hstring, himp _ _ hv, ht⟩

/-- Where less nesting is allowed, so is more. -/
theorem IsText.mono {S : Strtod} {n m : ℕ} (hnm : n ≤ m) {item : CJson} {t : List UInt8}
    (h : IsText S n item t) : IsText S m item t := by
  induction n generalizing m item t with
  | zero =>
    cases m with
    | zero => exact h
    | succ m => exact Or.inl h
  | succ n ih =>
    obtain ⟨m, rfl⟩ : ∃ k, m = k + 1 := ⟨m - 1, by omega⟩
    rcases h with h | h
    · exact Or.inl h
    · exact Or.inr (h.mono fun _ _ => ih (by omega))

/-! ## Literals -/

/-- Hexadecimal digits are neither quotes nor backslashes. -/
theorem hexValue_ne {b : UInt8} {v : Nat} (h : hexValue b = some v) : b ≠ quote ∧ b ≠ backslash := by
  have hquote : hexValue quote = none := by decide
  have hbackslash : hexValue backslash = none := by decide
  constructor
  · rintro rfl
    exact absurd (hquote.symm.trans h) (by simp)
  · rintro rfl
    exact absurd (hbackslash.symm.trans h) (by simp)

theorem hexValue_of_foldlM {digits : List UInt8} {h code : Nat}
    (hcode : digits.foldlM (fun h b => (hexValue b).map (h * 16 + ·)) h = some code) :
    ∀ b ∈ digits, b ≠ quote ∧ b ≠ backslash := by
  induction digits generalizing h with
  | nil => intro b hb; cases hb
  | cons d digits ih =>
    rw [List.foldlM_cons] at hcode
    obtain ⟨h', hh', hcode⟩ := Option.bind_eq_some_iff.mp hcode
    obtain ⟨v, hv, -⟩ := Option.map_eq_some_iff.mp hh'
    intro b hb
    rcases List.mem_cons.mp hb with rfl | hb
    · exact hexValue_ne hv
    · exact ih hcode b hb

theorem Closed.run {run t : List UInt8} {skipped : ℕ} (hrun : ∀ b ∈ run, b ≠ quote ∧ b ≠ backslash)
    (h : Closed t skipped) : Closed (run ++ t) skipped := by
  induction run with
  | nil => exact h
  | cons b run ih =>
    obtain ⟨hquote, hb⟩ := hrun b (List.mem_cons_self ..)
    exact .plain hquote hb (ih fun c hc => hrun c (List.mem_cons_of_mem _ hc))

theorem Closed.unicode {digits t : List UInt8} {code : Nat} {skipped : ℕ}
    (hcode : hexCode digits = some code) (h : Closed t skipped) :
    Closed (unicodeEscape digits ++ t) (skipped + 1) :=
  .pair 0x75 (h.run (hexValue_of_foldlM hcode))

theorem Escaped.closed {t s : List UInt8} (h : Escaped t s) : ∃ skipped, Closed t skipped := by
  induction h with
  | nil => exact ⟨0, .nil⟩
  | plain hquote hb _ ih => exact ih.imp fun _ hk => .plain hquote hb hk
  | short he _ ih =>
    obtain ⟨k, hk⟩ := ih
    exact ⟨k + 1, .pair _ hk⟩
  | basic c hlength hcode _ ih =>
    obtain ⟨k, hk⟩ := ih
    exact ⟨k + 1, hk.unicode hcode⟩
  | pair c hc hlength hlength' hhigh hlow _ ih =>
    obtain ⟨k, hk⟩ := ih
    exact ⟨k + 1 + 1, (hk.unicode hlow).unicode hhigh⟩

theorem escapeSequence_short {c e : UInt8} {t : List UInt8} (he : shortEscape c = some e) :
    escapeSequence (backslash :: c :: t) = some ([e], 2) := by
  simp [escapeSequence, he]

theorem escapeSequence_unicode (digits t : List UInt8) :
    escapeSequence (unicodeEscape digits ++ t) = utf16LiteralToUtf8 (unicodeEscape digits ++ t) := by
  have hnone : shortEscape 0x75 = none := by decide
  simp [escapeSequence, unicodeEscape, hnone]

theorem Escaped.decodes {t s : List UInt8} (h : Escaped t s) : Decodes t s := by
  induction h with
  | nil => exact .nil
  | plain hquote hb _ ih => exact .plain hb ih
  | short he _ ih => exact .escape (escapeSequence_short he) ih
  | @basic c digits t s hlength hcode _ ih =>
    have hn := (escapeSequence_unicode digits t).trans (utf16_basic hlength hcode t)
    refine .escape hn ?_
    have hdrop : (unicodeEscape digits ++ t).drop 6 = t := by
      rw [List.drop_append_of_le_length (by simp [unicodeEscape, hlength]),
        List.drop_eq_nil_of_le (by simp [unicodeEscape, hlength]), List.nil_append]
    exact hdrop.symm ▸ ih
  | @pair c high low t s hc hlength hlength' hhigh hlow _ ih =>
    have hn := (escapeSequence_unicode high (unicodeEscape low ++ t)).trans
      (utf16_pair hc hlength hlength' hhigh hlow t)
    refine .escape hn ?_
    have hdrop : (unicodeEscape high ++ (unicodeEscape low ++ t)).drop 12 = t := by
      rw [← List.append_assoc, List.drop_append_of_le_length (by simp [unicodeEscape, hlength, hlength']),
        List.drop_eq_nil_of_le (by simp [unicodeEscape, hlength, hlength']), List.nil_append]
    exact hdrop.symm ▸ ih

/-- JSON's strings are literals. -/
theorem Escaped.literal {t s : List UInt8} (h : Escaped t s) : Literal t s := ⟨h.closed, h.decodes⟩

end OlegPrinter
