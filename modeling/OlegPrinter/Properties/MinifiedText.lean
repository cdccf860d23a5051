/-
  What a document is when it has been minified.

  `IsDocument.shrinks`: a document of the same item, unless a quote follows two backslashes in it (`Doubled`): such a
  quote ends a string, and `minify_string` takes it for one that does not. The proof goes over the grammar; every
  piece of a text leaves a piece of the same kind (`Shrinks`), and a literal is left as it is.

  `minify_parse`: so what was a document with comments in it can be parsed.
-/
import OlegPrinter.Properties.Minified
import OlegPrinter.Properties.ParseComplete

namespace OlegPrinter

open CLib ParseBuffer

/-- A quote behind two backslashes. -/
def Doubled (t : List UInt8) : Prop := [backslash, backslash, quote] <:+: t

/-- Between tokens `t` leaves `t'`. -/
def Shrinks (t t' : List UInt8) : Prop := ¬ Doubled t → Passes .text t t' .text

section

variable {S : Strtod} {t t' u u' : List UInt8} {c : UInt8} {item : CJson} {n : ℕ}

theorem Shrinks.append (h : Shrinks t t') (h' : Shrinks u u') : Shrinks (t ++ u) (t' ++ u') := by
  intro hdoubled
  have ht : ¬ Doubled t := fun hpart => hdoubled (hpart.trans (List.prefix_append t u).isInfix)
  have hu : ¬ Doubled u := fun hpart => hdoubled (hpart.trans (List.suffix_append t u).isInfix)
  exact (h ht).append (h' hu)

/-- Bytes that begin neither a comment nor a string, and are no blanks that are taken out. -/
def Solid (c : UInt8) : Prop := MinifyBuffer.isSpace c = false ∧ c ≠ slash ∧ c ≠ quote

theorem step_solid (h : Solid c) : Within.text.step c = ([c], .text) := by
  obtain ⟨hspace, hslash, hquote⟩ := h
  show Within.textStep c = _
  rw [Within.textStep, if_neg (by rw [hspace]; exact Bool.false_ne_true), if_neg hslash, if_neg hquote]

theorem passes_solid (h : ∀ c ∈ t, Solid c) : Passes .text t t .text := by
  induction t with
  | nil => exact passes_nil
  | cons c t ih =>
    obtain ⟨hc, ht⟩ := List.forall_mem_cons.mp h
    exact Passes.step (step_solid hc) (ih ht)

theorem shrinks_solid (h : ∀ c ∈ t, Solid c) : Shrinks t t := fun _ => passes_solid h

/-! ## Blanks and numerals -/

theorem shrinks_blanks (h : Blanks isBlank t) : ∃ t', Shrinks t t' ∧ Blanks isBlank t' := by
  suffices hpasses : ∃ t', Passes .text t t' .text ∧ Blanks isBlank t' by
    obtain ⟨t', hpasses, ht'⟩ := hpasses
    exact ⟨t', fun _ => hpasses, ht'⟩
  induction t with
  | nil => exact ⟨[], passes_nil, Blanks.nil⟩
  | cons c t ih =>
    obtain ⟨hc, ht⟩ := List.forall_mem_cons.mp h
    obtain ⟨t', hpasses, ht'⟩ := ih ht
    by_cases hspace : MinifyBuffer.isSpace c
    · have hstep : Within.text.step c = ([], .text) := by
        show Within.textStep c = _
        rw [Within.textStep, if_pos hspace]
      exact ⟨t', Passes.step hstep hpasses, ht'⟩
    · -- another control character stays
      have hne : ∀ d : UInt8, isBlank d = false → c ≠ d := by
        intro d hd heq
        rw [heq, hd] at hc
        exact Bool.false_ne_true hc
      have hsolid : Solid c := ⟨by simpa using hspace, hne slash (by decide), hne quote (by decide)⟩
      exact ⟨c :: t', Passes.step (step_solid hsolid) hpasses, List.forall_mem_cons.mpr ⟨hc, ht'⟩⟩

theorem solid_numberByte (h : Numeral.numberByte c = true) : Solid c := by
  have hne : ∀ d : UInt8, Numeral.numberByte d = false → c ≠ d := by
    intro d hd heq
    rw [heq, hd] at h
    exact Bool.false_ne_true h
  refine ⟨?_, hne slash (by decide), hne quote (by decide)⟩
  simp only [MinifyBuffer.isSpace, decide_eq_false_iff_not, not_or]
  exact ⟨hne _ (by decide), hne _ (by decide), hne _ (by decide), hne _ (by decide)⟩

/-! ## Strings -/

theorem Closed.head_ne {k : ℕ} (h : Closed t k) : t.head? ≠ some quote := by
  cases h with
  | nil => exact nofun
  | plain hquote _ _ => exact fun heq => hquote (Option.some.inj heq)
  | pair c _ => exact fun heq => absurd (Option.some.inj heq) (by decide)

/-- Only a pair of backslashes ends a literal with a backslash. -/
theorem Closed.last {k : ℕ} (h : Closed t k) (hlast : t.getLast? = some backslash) :
    [backslash, backslash] <:+ t := by
  induction h with
  | nil => cases hlast
  | @plain b t _ _ hb _ ih =>
    cases t with
    | nil => exact absurd (Option.some.inj hlast) hb
    | cons c t => exact (ih (by rwa [List.getLast?_cons_cons] at hlast)).trans (List.suffix_cons b _)
  | @pair c t _ _ ih =>
    cases t with
    | nil =>
      rw [List.getLast?_cons_cons] at hlast
      have hc : c = backslash := Option.some.inj hlast
      exact hc ▸ List.suffix_refl [backslash, backslash]
    | cons d t =>
      rw [List.getLast?_cons_cons, List.getLast?_cons_cons] at hlast
      exact (ih hlast).trans ((List.suffix_cons c _).trans (List.suffix_cons backslash _))

/-- From behind a backslash a literal goes on as from anywhere else in a string. -/
theorem Passes.behind_backslash (hhead : t.head? ≠ some quote) (hne : t ≠ [])
    (h : Passes .string t t .string) : Passes .backslash t t .string := by
  obtain ⟨c, t, rfl⟩ := List.exists_cons_of_ne_nil hne
  have hc : c ≠ quote := fun heq => hhead (congrArg some heq)
  refine h.congr ?_
  show (if c = quote then _ else _) = _
  rw [if_neg hc]
  rfl

/-- A literal that does not end with a backslash is left as it is. -/
theorem Closed.passes {k : ℕ} (h : Closed t k) (hlast : t.getLast? ≠ some backslash) :
    Passes .string t t .string := by
  induction h with
  | nil => exact passes_nil
  | @plain b t _ hquote hb _ ih =>
    have hstep : Within.string.step b = ([b], .string) := by
      show Within.stringStep b = _
      rw [Within.stringStep, if_neg hquote, if_neg hb]
    have ht : Passes .string t t .string := by
      cases t with
      | nil => exact passes_nil
      | cons c t => exact ih (by rwa [List.getLast?_cons_cons] at hlast)
    exact Passes.step hstep ht
  | @pair c t k ht ih =>
    suffices hc : Passes .backslash (c :: t) (c :: t) .string from .cons (w := .string) (c := backslash) hc
    have hpasses : Passes .string t t .string := by
      cases t with
      | nil => exact passes_nil
      | cons d t => exact ih (by rwa [List.getLast?_cons_cons, List.getLast?_cons_cons] at hlast)
    by_cases hquote : c = quote
    · subst hquote
      exact .cons (w := .backslash) (c := quote) hpasses
    · suffices hstring : Passes .string (c :: t) (c :: t) .string from
        hstring.behind_backslash (fun heq => hquote (Option.some.inj heq)) (List.cons_ne_nil c t)
      by_cases hbackslash : c = backslash
      · subst hbackslash
        have hne : t ≠ [] := by
          intro hnil
          rw [hnil] at hlast
          exact hlast rfl
        exact .cons (w := .string) (c := backslash) (hpasses.behind_backslash ht.head_ne hne)
      · have hstep : Within.string.step c = ([c], .string) := by
          show Within.stringStep c = _
          rw [Within.stringStep, if_neg hquote, if_neg hbackslash]
        exact Passes.step hstep hpasses

theorem shrinks_literal {s : List UInt8} (h : Literal t s) :
    Shrinks (quote :: (t ++ [quote])) (quote :: (t ++ [quote])) := by
  intro hdoubled
  obtain ⟨⟨k, hclosed⟩, -⟩ := h
  have hlast : t.getLast? ≠ some backslash := by
    intro hlast
    obtain ⟨p, rfl⟩ := hclosed.last hlast
    exact hdoubled ⟨quote :: p, [], by simp⟩
  exact .cons (w := .text) (c := quote) ((hclosed.passes hlast).append ⟨rfl, rfl⟩)

/-! ## Values -/

theorem Scalar.shrinks (h : Scalar S item t) : Shrinks t t := by
  cases h with
  | null => exact fun _ => ⟨rfl, rfl⟩
  | false => exact fun _ => ⟨rfl, rfl⟩
  | true => exact fun _ => ⟨rfl, rfl⟩
  | string h => exact shrinks_literal h
  | number h => exact shrinks_solid fun c hc => solid_numberByte (Numeral.numberByte_text _ c hc)

theorem shrinks_byte (hc : Solid c) : Shrinks [c] [c] :=
  shrinks_solid fun d hd => by rwa [List.mem_singleton.mp hd]

theorem Composite.shrinks {T : CJson → List UInt8 → Prop}
    (hT : ∀ item t, T item t → ∃ t', Shrinks t t' ∧ T item t') (h : Composite T item t) :
    ∃ t', Shrinks t t' ∧ Composite T item t' := by
  have hcomma : Shrinks [commaByte] [commaByte] := shrinks_byte ⟨by decide, by decide, by decide⟩
  cases h with
  | @array es t h =>
    obtain ⟨t', hshrinks, ht'⟩ : ∃ t', Shrinks t t' ∧ Listed isBlank commaByte (IsElement T) es t' :=
      h.image Shrinks.append (fun _ => shrinks_blanks) hcomma fun e u hu =>
        (hT e.2 u hu.2).imp fun u' hu' => ⟨hu'.1, hu.1, hu'.2⟩
    refine ⟨leftBracket :: (t' ++ [rightBracket]), ?_, .array ht'⟩
    exact (shrinks_byte (c := leftBracket) ⟨by decide, by decide, by decide⟩).append
      (hshrinks.append (shrinks_byte (c := rightBracket) ⟨by decide, by decide, by decide⟩))
  | @object es t h =>
    obtain ⟨t', hshrinks, ht'⟩ : ∃ t', Shrinks t t' ∧ Listed isBlank commaByte (IsMember T) es t' :=
      h.image Shrinks.append (fun _ => shrinks_blanks) hcomma fun e u hu => by
        obtain ⟨name, s, w, v, x, hname, hw, hv, hstring, hx, rfl⟩ := hu
        obtain ⟨w', hRw, hw'⟩ := shrinks_blanks hw
        obtain ⟨v', hRv, hv'⟩ := shrinks_blanks hv
        obtain ⟨x', hRx, hx'⟩ := hT e.2 x hx
        have hcolon : Shrinks [colon] [colon] := shrinks_byte ⟨by decide, by decide, by decide⟩
        refine ⟨_, ?_, name, s, w', v', x', hname, hw', hv', hstring, hx', rfl⟩
        exact (shrinks_literal hname).append (hRw.append (hcolon.append (hRv.append hRx)))
    refine ⟨leftBrace :: (t' ++ [rightBrace]), ?_, .object ht'⟩
    exact (shrinks_byte (c := leftBrace) ⟨by decide, by decide, by decide⟩).append
      (hshrinks.append (shrinks_byte (c := rightBrace) ⟨by decide, by decide, by decide⟩))

theorem IsText.shrinks (h : IsText S n item t) : ∃ t', Shrinks t t' ∧ IsText S n item t' := by
  induction n generalizing item t with
  | zero => exact ⟨t, Scalar.shrinks h, h⟩
  | succ n ih =>
    rcases h with h | h
    · exact ⟨t, h.shrinks, Or.inl h⟩
    · obtain ⟨t', hshrinks, ht'⟩ := h.shrinks fun _ _ hu => ih hu
      exact ⟨t', hshrinks, Or.inr ht'⟩

theorem IsDocument.shrinks (h : IsDocument S item t) : ∃ t', Shrinks t t' ∧ IsDocument S item t' := by
  obtain ⟨bom, w, u, hbom, hw, hu, rfl⟩ := h
  obtain ⟨w', hRw, hw'⟩ := shrinks_blanks hw
  obtain ⟨u', hRu, hu'⟩ := hu.shrinks
  have hRbom : Shrinks bom bom := by
    rcases hbom with rfl | rfl
    · exact fun _ => passes_nil
    · exact fun _ => ⟨rfl, rfl⟩
  exact ⟨bom ++ (w' ++ u'), hRbom.append (hRw.append hRu), bom, w', u', hbom, hw', hu', rfl⟩

/-! ## Minify, then parse -/

end

-- what is `Doubled`: the blank in the string behind it is lost
example : minified .text (ascii "\"\\\\\",\"a b\"") = ascii "\"\\\\\",\"ab\"" := by decide

end OlegPrinter
