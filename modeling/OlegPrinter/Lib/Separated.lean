/-
  Lists of items in a text, as grammars have them.

  * `Separated sep Item`: one item or more, with `sep` between them.
  * `Padded blank Core`: an item with blanks on both sides.
  * `Listed`: between brackets, blanks alone or padded items with separators. `Listed.image`: what is made of
    a list, piece by piece.
-/
import Mathlib.Data.List.Basic

namespace CLib

variable {α β : Type} {sep : β} {blank : β → Bool} {Item Item' Core : α → List β → Prop}

/-- Items with a separator between any two. -/
inductive Separated (sep : β) (Item : α → List β → Prop) : List α → List β → Prop
  | one {a : α} {t : List β} (h : Item a t) : Separated sep Item [a] t
  | cons {a : α} {as : List α} {t u : List β} (h : Item a t) (hs : Separated sep Item as u) :
      Separated sep Item (a :: as) (t ++ sep :: u)

def Blanks (blank : β → Bool) (w : List β) : Prop := ∀ c ∈ w, blank c

/-- Blanks, an item, blanks. -/
def Padded (blank : β → Bool) (Core : α → List β → Prop) (a : α) (t : List β) : Prop :=
  ∃ w u w', Blanks blank w ∧ Core a u ∧ Blanks blank w' ∧ t = w ++ (u ++ w')

/-- What may stand between brackets. -/
def Listed (blank : β → Bool) (sep : β) (Core : α → List β → Prop) (as : List α) (t : List β) :
    Prop :=
  (as = [] ∧ Blanks blank t) ∨ Separated sep (Padded blank Core) as t

theorem Blanks.nil : Blanks blank [] := fun _ hc => absurd hc List.not_mem_nil

theorem Blanks.append {w w' : List β} (h : Blanks blank w) (h' : Blanks blank w') :
    Blanks blank (w ++ w') := by
  intro c hc
  rcases List.mem_append.mp hc with hc | hc
  · exact h c hc
  · exact h' c hc

theorem Separated.mono (himp : ∀ a t, Item a t → Item' a t) {as : List α} {t : List β}
    (h : Separated sep Item as t) : Separated sep Item' as t := by
  induction h with
  | one h => exact .one (himp _ _ h)
  | cons h _ ih => exact .cons (himp _ _ h) ih

theorem Padded.of_core {a : α} {t : List β} (h : Core a t) : Padded blank Core a t :=
  ⟨[], t, [], Blanks.nil, h, Blanks.nil, by simp⟩

theorem Listed.mono (himp : ∀ a t, Core a t → Item' a t) {as : List α} {t : List β}
    (h : Listed blank sep Core as t) : Listed blank sep Item' as t := by
  rcases h with h | h
  · exact Or.inl h
  · refine Or.inr (h.mono fun a t ht => ?_)
    obtain ⟨w, u, w', hw, hu, hw', rfl⟩ := ht
    exact ⟨w, u, w', hw, himp a u hu, hw', rfl⟩

/-- More blanks around it. -/
theorem Padded.pad {a : α} {t w w' : List β} (hw : Blanks blank w) (h : Padded blank Core a t)
    (hw' : Blanks blank w') : Padded blank Core a (w ++ (t ++ w')) := by
  obtain ⟨v, u, v', hv, hu, hv', rfl⟩ := h
  exact ⟨w ++ v, u, v' ++ w', hw.append hv, hu, hv'.append hw', by simp⟩

/-- Blanks in front of a list are blanks in front of its first item. -/
theorem Separated.blanks_append {as : List α} {t w : List β}
    (h : Separated sep (Padded blank Core) as t) (hw : Blanks blank w) :
    Separated sep (Padded blank Core) as (w ++ t) := by
  cases h with
  | one h =>
    refine .one ?_
    simpa using h.pad hw Blanks.nil
  | cons h hs =>
    rw [← List.append_assoc]
    refine .cons ?_ hs
    simpa using h.pad hw Blanks.nil

/-- And blanks behind it belong to its last. -/
theorem Separated.append_blanks {as : List α} {t w : List β}
    (h : Separated sep (Padded blank Core) as t) (hw : Blanks blank w) :
    Separated sep (Padded blank Core) as (t ++ w) := by
  induction h with
  | one h =>
    refine .one ?_
    simpa using h.pad Blanks.nil hw
  | cons h _ ih =>
    rw [List.append_assoc, List.cons_append]
    exact .cons h ih

theorem Listed.pad {as : List α} {t w w' : List β} (hw : Blanks blank w)
    (h : Listed blank sep Core as t) (hw' : Blanks blank w') :
    Listed blank sep Core as (w ++ (t ++ w')) := by
  rcases h with ⟨rfl, h⟩ | h
  · exact Or.inl ⟨rfl, hw.append (h.append hw')⟩
  · exact Or.inr ((h.append_blanks hw').blanks_append hw)

theorem Separated.exists_item {as : List α} {t : List β} (h : Separated sep Item as t) :
    ∀ a ∈ as, ∃ u, Item a u := by
  induction h with
  | one h =>
    intro a ha
    rw [List.mem_singleton.mp ha]
    exact ⟨_, h⟩
  | cons h _ ih =>
    intro a ha
    rcases List.mem_cons.mp ha with rfl | ha
    · exact ⟨_, h⟩
    · exact ih a ha

theorem Listed.exists_core {as : List α} {t : List β} (h : Listed blank sep Core as t) :
    ∀ a ∈ as, ∃ u, Core a u := by
  intro a ha
  rcases h with ⟨rfl, -⟩ | h
  · cases ha
  · obtain ⟨_, w, u, w', -, hu, -, -⟩ := h.exists_item a ha
    exact ⟨u, hu⟩

theorem Separated.length_le {as : List α} {t : List β} (h : Separated sep Item as t) :
    as.length ≤ t.length + 1 := by
  induction h with
  | one _ => exact Nat.le_add_left 1 _
  | cons _ _ ih =>
    rw [List.length_cons, List.length_append, List.length_cons]
    omega

/-- The blanks in front of a list, and the list from its first item on. -/
theorem Separated.trim {as : List α} {t : List β} (h : Separated sep (Padded blank Core) as t) :
    ∃ w a u s, t = w ++ (u ++ s) ∧ Blanks blank w ∧ Core a u ∧
      Separated sep (Padded blank Core) as (u ++ s) := by
  cases h with
  | one h =>
    obtain ⟨w, u, w', hw, hu, hw', rfl⟩ := h
    exact ⟨w, _, u, w', rfl, hw, hu, .one ⟨[], u, w', Blanks.nil, hu, hw', rfl⟩⟩
  | @cons _ _ _ v h hs =>
    obtain ⟨w, u, w', hw, hu, hw', rfl⟩ := h
    have hfirst : Padded blank Core _ (u ++ w') := ⟨[], u, w', Blanks.nil, hu, hw', rfl⟩
    exact ⟨w, _, u, w' ++ sep :: v, by simp, hw, hu, by simpa using Separated.cons hfirst hs⟩

/-! ## Texts that are made into others -/

section

variable {R : List β → List β → Prop}
  (happend : ∀ {t t' u u'}, R t t' → R u u' → R (t ++ u) (t' ++ u'))
include happend

theorem Separated.image (hsep : R [sep] [sep]) (hitem : ∀ a t, Item a t → ∃ t', R t t' ∧ Item' a t')
    {as : List α} {t : List β} (h : Separated sep Item as t) :
    ∃ t', R t t' ∧ Separated sep Item' as t' := by
  induction h with
  | one h =>
    obtain ⟨t', hR, ht'⟩ := hitem _ _ h
    exact ⟨t', hR, .one ht'⟩
  | cons h _ ih =>
    obtain ⟨t', hR, ht'⟩ := hitem _ _ h
    obtain ⟨u', hR', hu'⟩ := ih
    exact ⟨t' ++ sep :: u', happend hR (happend hsep hR'), .cons ht' hu'⟩

variable (hblanks : ∀ w, Blanks blank w → ∃ w', R w w' ∧ Blanks blank w')
include hblanks

theorem Padded.image (hcore : ∀ a t, Core a t → ∃ t', R t t' ∧ Item' a t') {a : α} {t : List β}
    (h : Padded blank Core a t) : ∃ t', R t t' ∧ Padded blank Item' a t' := by
  obtain ⟨w, u, v, hw, hu, hv, rfl⟩ := h
  obtain ⟨w', hRw, hw'⟩ := hblanks w hw
  obtain ⟨u', hRu, hu'⟩ := hcore a u hu
  obtain ⟨v', hRv, hv'⟩ := hblanks v hv
  exact ⟨w' ++ (u' ++ v'), happend hRw (happend hRu hRv), w', u', v', hw', hu', hv', rfl⟩

/-- If items are made into items, blanks into blanks and the separator into itself, lists are made
    into lists. -/
theorem Listed.image (hsep : R [sep] [sep]) (hcore : ∀ a t, Core a t → ∃ t', R t t' ∧ Item' a t')
    {as : List α} {t : List β} (h : Listed blank sep Core as t) :
    ∃ t', R t t' ∧ Listed blank sep Item' as t' := by
  rcases h with ⟨rfl, hw⟩ | h
  · obtain ⟨w', hR, hw'⟩ := hblanks t hw
    exact ⟨w', hR, Or.inl ⟨rfl, hw'⟩⟩
  · obtain ⟨t', hR, ht'⟩ := h.image happend hsep fun a u hu => hu.image happend hblanks hcore
    exact ⟨t', hR, Or.inr ht'⟩

end

end CLib
