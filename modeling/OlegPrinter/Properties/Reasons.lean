/-
  `getStateReason` on the values a printer reports.

  The keyword of a reason is its enumerator in lower case, with `-` for `_`. The attribute has
  several values, which arrive as one option: keywords joined by commas, each with or without a
  severity suffix (`reasonsValue`).

  * `keyword_literal`: of the fifteen literals, fourteen are the keyword of their enumerator. That of
    MEDIA_NEEDED is spelt `marker-needed`.
  * `decodesList_iff`: a list is decoded exactly when it is one keyword without a suffix, and not
    that of MEDIA_NEEDED (or by the chance that the stack holds a right code).
  * `unknownApart_iff`: the result is independent of the stack, and an unknown text is told
    apart from the known ones, exactly for those fourteen keywords.
-/
import OlegPrinter.Server.StateReason

namespace OlegPrinter

open CLib

/-! ## Keywords -/

/-- An upper-case letter in lower case, and `-` for `_`. -/
def keywordByte (b : UInt8) : UInt8 :=
  if b = 0x5f then 0x2d else if 0x41 ≤ b ∧ b ≤ 0x5a then b + 0x20 else b

/-- The IPP keyword of a reason. -/
def PrinterStateReason.keyword (r : PrinterStateReason) : List UInt8 :=
  (ascii r.enumerator).map keywordByte

example : PrinterStateReason.tonerLow.keyword = ascii "toner-low" := by decide

/-- The literal that assigns a reason is its keyword, but for one. -/
theorem keyword_literal : ∀ p ∈ stateReasonLiterals, p.1 = p.2.keyword ∨ p.2 = .mediaNeeded := by
  decide +kernel

theorem mediaNeeded_notMem : ∀ p ∈ stateReasonLiterals,
    p.1 ≠ PrinterStateReason.mediaNeeded.keyword := by
  decide +kernel

theorem literal_of_reason {r : PrinterStateReason} (hr : r ≠ .mediaNeeded) :
    (r.keyword, r) ∈ stateReasonLiterals := by
  have hassigned : ∃ p ∈ stateReasonLiterals, p.2 = r := by
    cases r <;> decide +kernel
  obtain ⟨p, hp, rfl⟩ := hassigned
  rw [← (keyword_literal p hp).resolve_right hr]
  exact hp

/-- A text that is both a literal and a keyword stands for one and the same reason. -/
theorem literal_eq_keyword {p : List UInt8 × PrinterStateReason} (hp : p ∈ stateReasonLiterals)
    {r : PrinterStateReason} (h : p.1 = r.keyword) : r ≠ .mediaNeeded ∧ p.2 = r := by
  have hr : r ≠ .mediaNeeded := by
    rintro rfl
    exact mediaNeeded_notMem p hp h
  exact ⟨hr, congrArg Prod.snd (literal_unique p hp _ (literal_of_reason hr) h)⟩

/-! ## Values of the attribute -/

/-- The severity suffixes. -/
inductive Severity where
  | error
  | warning
  | report
  deriving DecidableEq

def Severity.suffix : Severity → List UInt8
  | .error => ascii "-error"
  | .warning => ascii "-warning"
  | .report => ascii "-report"

/-- `','`. -/
def comma : UInt8 := 0x2c

/-- A keyword, known or not: any bytes but commas and NULs. -/
structure Keyword where
  bytes : List UInt8
  noNul : (0 : UInt8) ∉ bytes
  noComma : comma ∉ bytes

/-- One value of the attribute. -/
structure ReportedReason where
  keyword : Keyword
  severity : Option Severity

def ReportedReason.text (e : ReportedReason) : List UInt8 :=
  e.keyword.bytes ++ (e.severity.elim [] Severity.suffix)

theorem ReportedReason.noNul (e : ReportedReason) : (0 : UInt8) ∉ e.text := by
  have hsuffix : ∀ v : Severity, (0 : UInt8) ∉ v.suffix := by
    intro v
    cases v <;> decide
  unfold ReportedReason.text
  rw [List.mem_append, not_or]
  refine ⟨e.keyword.noNul, ?_⟩
  cases e.severity with
  | none => simp
  | some v => exact hsuffix v

theorem notMem_intercalate {sep : List UInt8} {b : UInt8} (hsep : b ∉ sep)
    {parts : List (List UInt8)} (h : ∀ p ∈ parts, b ∉ p) : b ∉ sep.intercalate parts := by
  induction parts with
  | nil => simp
  | cons p parts ih =>
    have ih' := ih fun q hq => h q (List.mem_cons_of_mem _ hq)
    cases parts with
    | nil => simpa using h p List.mem_cons_self
    | cons q parts =>
      rw [List.intercalate_cons_cons, List.mem_append, List.mem_append, not_or, not_or]
      exact ⟨⟨h p List.mem_cons_self, hsep⟩, ih'⟩

/-- The option CUPS makes of the values. -/
def reasonsValue (es : List ReportedReason) : CStr where
  bytes := [comma].intercalate (es.map ReportedReason.text)
  noNul := by
    refine notMem_intercalate (by decide) fun p hp => ?_
    obtain ⟨e, -, rfl⟩ := List.mem_map.mp hp
    exact e.noNul

/-- A known reason is among the values. -/
def Occurs (r : PrinterStateReason) (es : List ReportedReason) : Prop :=
  ∃ e ∈ es, e.keyword.bytes = r.keyword

/-- The value of a reason alone, without a suffix. -/
def PrinterStateReason.alone (r : PrinterStateReason) : ReportedReason where
  keyword := ⟨r.keyword, by cases r <;> decide +kernel, by cases r <;> decide +kernel⟩
  severity := none

theorem reasonsValue_alone (r : PrinterStateReason) :
    (reasonsValue [r.alone]).bytes = r.keyword := by
  simp [reasonsValue, ReportedReason.text, PrinterStateReason.alone]

/-- A literal has no comma, so a recognised value is a single one. -/
theorem length_le_one_of_recognised {es : List ReportedReason}
    (h : Recognised (reasonsValue es)) : es.length ≤ 1 := by
  have hcomma : ∀ p ∈ stateReasonLiterals, comma ∉ p.1 := by decide +kernel
  obtain ⟨p, hp, hbytes⟩ := h
  rcases es with - | ⟨e, - | ⟨e', es⟩⟩
  · exact Nat.zero_le 1
  · exact Nat.le_refl 1
  · exfalso
    apply hcomma p hp
    rw [← hbytes]
    simp [reasonsValue]

theorem not_suffix_literal (v : Severity) : ∀ p ∈ stateReasonLiterals, ¬ v.suffix <:+ p.1 := by
  cases v <;> decide +kernel

/-- A recognised value in which a known reason occurs is the keyword of that reason. -/
theorem eq_alone_of_recognised {es : List ReportedReason} {r : PrinterStateReason}
    (hr : Occurs r es) (h : Recognised (reasonsValue es)) : r ≠ .mediaNeeded ∧ es = [r.alone] := by
  obtain ⟨e, he, hkey⟩ := hr
  have hlen := length_le_one_of_recognised h
  obtain ⟨p, hp, hbytes⟩ := h
  rcases es with - | ⟨e', - | ⟨e'', es⟩⟩
  · cases he
  · obtain rfl := List.mem_singleton.mp he
    have htext : r.keyword ++ e.severity.elim [] Severity.suffix = p.1 := by
      rw [← hkey, ← hbytes]
      simp [reasonsValue, ReportedReason.text]
    obtain ⟨⟨bytes, h0, hc⟩, sev⟩ := e
    cases hkey
    cases sev with
    | none =>
      rw [Option.elim_none, List.append_nil] at htext
      exact ⟨(literal_eq_keyword hp htext.symm).1, rfl⟩
    | some v => exact absurd ⟨r.keyword, htext⟩ (not_suffix_literal v p hp)
  · simp at hlen

/-- The keyword of every other reason is decoded to its own code. -/
theorem getStateReason_alone (slot : Int) {r : PrinterStateReason} (hr : r ≠ .mediaNeeded) :
    getStateReason slot (reasonsValue [r.alone]).bytes = r.code :=
  getStateReason_literal (literal_of_reason hr) (reasonsValue_alone r) slot

/-! ## Lists of reasons -/

/-- The result is the code of a reason that occurs in the list. -/
def DecodesList (slot : Int) (es : List ReportedReason) : Prop :=
  ∃ r, Occurs r es ∧ getStateReason slot (reasonsValue es).bytes = r.code

theorem occurs_alone (r : PrinterStateReason) : Occurs r [r.alone] :=
  ⟨r.alone, List.mem_singleton.mpr rfl, rfl⟩

/-- A list in which a known reason occurs is decoded exactly when it is that reason alone, without a
    suffix and not MEDIA_NEEDED; or when the stack happens to hold a right code. -/
theorem decodesList_iff (slot : Int) (es : List ReportedReason) (h : ∃ r, Occurs r es) :
    DecodesList slot es ↔
      (∃ r : PrinterStateReason, r ≠ .mediaNeeded ∧ es = [r.alone]) ∨
        ∃ r, Occurs r es ∧ slot = r.code := by
  obtain ⟨r₀, h₀⟩ := h
  by_cases hrec : Recognised (reasonsValue es)
  · obtain ⟨hne, rfl⟩ := eq_alone_of_recognised h₀ hrec
    refine iff_of_true ⟨r₀, h₀, ?_⟩ (Or.inl ⟨r₀, hne, rfl⟩)
    exact getStateReason_alone slot hne
  · have hslot := getStateReason_unrecognised hrec slot
    refine ⟨?_, ?_⟩
    · rintro ⟨r, hr, hcode⟩
      exact Or.inr ⟨r, hr, hslot ▸ hcode⟩
    · rintro (⟨r, hne, rfl⟩ | ⟨r, hr, hcode⟩)
      · exact ⟨r, occurs_alone r, getStateReason_alone slot hne⟩
      · exact ⟨r, hr, hslot.trans hcode⟩

theorem decodesList_iff_mediaJam :
    DecodesList 0 [PrinterStateReason.mediaJam.alone] ↔
      (∃ r : PrinterStateReason, r ≠ .mediaNeeded ∧
          [PrinterStateReason.mediaJam.alone] = [r.alone]) ∨
        ∃ r, Occurs r [PrinterStateReason.mediaJam.alone] ∧ 0 = r.code :=
  decodesList_iff 0 [PrinterStateReason.mediaJam.alone] ⟨.mediaJam, occurs_alone _⟩

/-- `media-needed`, from a stack of zeros: the result is 0. -/
theorem decodesList_mediaNeeded_false :
    ¬ ∀ (slot : Int) (es : List ReportedReason), (∃ r, Occurs r es) → DecodesList slot es := by
  intro h
  obtain ⟨r, -, hcode⟩ := h 0 [PrinterStateReason.mediaNeeded.alone] ⟨_, occurs_alone _⟩
  have hzero : getStateReason 0 (reasonsValue [PrinterStateReason.mediaNeeded.alone]).bytes = 0 := by
    decide +kernel
  have hlow := r.code_bounds
  omega

/-! ## Unknown reasons -/

/-- The result is the same whatever the stack holds, and no known code for a text that is not the
    keyword of a reason. -/
def UnknownApart (s : CStr) : Prop :=
  (∀ slot slot' : Int, getStateReason slot s.bytes = getStateReason slot' s.bytes) ∧
    ((∀ r : PrinterStateReason, s.bytes ≠ r.keyword) →
      ∀ (slot : Int) (r : PrinterStateReason), getStateReason slot s.bytes ≠ r.code)

/-- Unknown reasons are told apart exactly from the keywords of the reasons other than
    MEDIA_NEEDED: any other text gives what the stack held, or is the misspelt literal. -/
theorem unknownApart_iff (s : CStr) :
    UnknownApart s ↔ ∃ r : PrinterStateReason, r ≠ .mediaNeeded ∧ s.bytes = r.keyword := by
  constructor
  · rintro ⟨hsame, hunknown⟩
    by_cases hrec : Recognised s
    · obtain ⟨p, hp, hbytes⟩ := hrec
      by_contra hnot
      refine hunknown (fun r hr => hnot ?_) 0 p.2 (getStateReason_literal hp hbytes 0)
      exact ⟨r, (literal_eq_keyword hp (hbytes.symm.trans hr)).1, hr⟩
    · have h := hsame 0 1
      rw [getStateReason_unrecognised hrec, getStateReason_unrecognised hrec] at h
      cases h
  · rintro ⟨r, hne, hbytes⟩
    refine ⟨fun slot slot' => ?_, fun hnone => absurd hbytes (hnone r)⟩
    have hp := literal_of_reason hne
    rw [getStateReason_literal hp hbytes slot, getStateReason_literal hp hbytes slot']

/-- `none`, where the stack still holds the code of an earlier request. -/
theorem unknownApart_none_false : ¬ ∀ s : CStr, UnknownApart s := by
  intro h
  have hnone : ∀ r : PrinterStateReason, (CStr.lit "none").bytes ≠ r.keyword := by
    intro r
    cases r <;> decide +kernel
  exact (h (CStr.lit "none")).2 hnone 13 .mediaEmpty (by decide)

end OlegPrinter
